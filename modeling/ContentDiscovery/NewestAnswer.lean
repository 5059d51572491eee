import ContentDiscovery.PkarrCache

/-!
# The newest answer

Mainline answers a Pkarr lookup with what its nodes hold. `newest_verified` of
`iroh-link-gateway/src/pkarr_redirect.rs` picks the answer to serve as they come in, and
`PkarrPage::render` of `debug_page.rs` picks one from the list of them.

Both pick an answer with the largest sequence, but a malformed answer is passed over only by the
page: the lookup fails with it, however many others there are (`newestVerified_malformed`). So
they agree exactly if there is none (`newest_agrees`).
-/

namespace ContentDiscovery

open Http PkarrGateway

/-! ## The best of a list -/

section Pick

variable {α : Type*} {pick : α → α → α} {seq : α → ℤ}

/-- Of two, the one with the larger sequence is picked; it does not matter which one if these are
equal. -/
structure Picks (seq : α → ℤ) (pick : α → α → α) : Prop where
  either : ∀ a b, pick a b = a ∨ pick a b = b
  left : ∀ a b, seq a ≤ seq (pick a b)
  right : ∀ a b, seq b ≤ seq (pick a b)

/-- What is picked from a list, one after the other, is the best of it. -/
theorem Picks.foldl (h : Picks seq pick) (a : α) (l : List α) :
    l.foldl pick a ∈ a :: l ∧ ∀ b ∈ a :: l, seq b ≤ seq (l.foldl pick a) := by
  induction l generalizing a with
  | nil =>
    refine ⟨List.mem_cons_self, fun b hb => ?_⟩
    rw [List.mem_singleton.mp hb, List.foldl_nil]
  | cons c l ih =>
    obtain ⟨hmem, hle⟩ := ih (pick a c)
    rw [List.foldl_cons]
    have hbest : seq (pick a c) ≤ seq (l.foldl pick (pick a c)) := hle _ List.mem_cons_self
    refine ⟨?_, fun b hb => ?_⟩
    · rcases List.mem_cons.mp hmem with heq | hl
      · rw [heq]
        rcases h.either a c with hpick | hpick
        · rw [hpick]
          exact List.mem_cons_self
        · rw [hpick]
          exact List.mem_cons_of_mem _ List.mem_cons_self
      · exact List.mem_cons_of_mem _ (List.mem_cons_of_mem _ hl)
    · rcases List.mem_cons.mp hb with rfl | hb
      · exact (h.left b c).trans hbest
      rcases List.mem_cons.mp hb with rfl | hb
      · exact (h.right a b).trans hbest
      · exact hle b (List.mem_cons_of_mem _ hb)

end Pick

/-! ## The two choices -/

/-- The answer that is kept. -/
def newer (newest item : MutableItem) : MutableItem :=
  if newest.seq < item.seq then item else newest

/-- The loop of `newest_verified`, over the answers up to the deadline or the last one. -/
def newestFrom (key : PkarrKey) : MutableItem → List MutableItem → Except HttpError MutableItem
  | newest, [] => .ok newest
  | newest, item :: items =>
    match verified item key with
    | .error error => .error error
    | .ok item => newestFrom key (newer newest item) items

/-- `newest_verified`. -/
def newestVerified (key : PkarrKey) : List MutableItem → Except HttpError MutableItem
  | [] => .error ⟨404, "no Pkarr packet found".toList⟩
  | first :: items =>
    match verified first key with
    | .error error => .error error
    | .ok newest => newestFrom key newest items

/-- `Iterator::max_by_key`, with the sequence as the key: the last of the largest ones. -/
def maxBySeq : List MutableItem → Option MutableItem
  | [] => none
  | item :: items =>
    some (items.foldl (fun best item => if best.seq ≤ item.seq then item else best) item)

/-- `newest` in `PkarrPage::render`. -/
def shownNewest (key : PkarrKey) (items : List MutableItem) : Option MutableItem :=
  maxBySeq (items.filter fun item => 0 ≤ item.seq ∧ item.key = key)

/-- An answer is well formed: it is one for the key, and its sequence is not negative. -/
def WellFormed (key : PkarrKey) (item : MutableItem) : Prop := 0 ≤ item.seq ∧ item.key = key

/-- The newest of the well-formed answers. -/
structure Newest (key : PkarrKey) (items : List MutableItem) (item : MutableItem) : Prop where
  mem : item ∈ items
  wellFormed : WellFormed key item
  newest : ∀ other ∈ items, WellFormed key other → other.seq ≤ item.seq

section Newest

variable {key : PkarrKey} {items : List MutableItem} {item : MutableItem}

theorem verified_of_wellFormed (h : WellFormed key item) : verified item key = .ok item :=
  if_neg fun hbad => hbad.elim (fun hseq => absurd h.1 (not_le.mpr hseq)) fun hkey => hkey h.2

theorem verified_of_malformed (h : ¬ WellFormed key item) : verified item key =
    .error ⟨StatusCode.BAD_GATEWAY, "invalid Pkarr key or timestamp".toList⟩ := by
  refine if_pos ?_
  rw [WellFormed, not_and_or, not_le] at h
  exact h

theorem picks_newer : Picks MutableItem.seq newer where
  either a b := by
    rw [newer]
    split
    · exact .inr rfl
    · exact .inl rfl
  left a b := by
    rw [newer]
    split
    · rename_i hlt
      exact hlt.le
    · exact le_rfl
  right a b := by
    rw [newer]
    split
    · exact le_rfl
    · rename_i hnot
      exact not_lt.mp hnot

theorem picks_last : Picks MutableItem.seq
    fun best item => if best.seq ≤ item.seq then item else best where
  either a b := by
    split
    · exact .inr rfl
    · exact .inl rfl
  left a b := by
    split
    · assumption
    · exact le_rfl
  right a b := by
    split
    · exact le_rfl
    · rename_i hnot
      exact (not_le.mp hnot).le

/-- If all answers are well formed, the loop keeps the best one. -/
theorem newestFrom_wellFormed (h : ∀ item ∈ items, WellFormed key item) (newest : MutableItem) :
    newestFrom key newest items = .ok (items.foldl newer newest) := by
  induction items generalizing newest with
  | nil => rfl
  | cons item items ih =>
    rw [List.forall_mem_cons] at h
    rw [newestFrom, verified_of_wellFormed h.1, List.foldl_cons]
    exact ih h.2 _

theorem newestFrom_malformed (h : ∃ item ∈ items, ¬ WellFormed key item) (newest : MutableItem) :
    newestFrom key newest items =
      .error ⟨StatusCode.BAD_GATEWAY, "invalid Pkarr key or timestamp".toList⟩ := by
  induction items generalizing newest with
  | nil =>
    obtain ⟨item, hitem, -⟩ := h
    cases hitem
  | cons item items ih =>
    rw [newestFrom]
    by_cases hitem : WellFormed key item
    · rw [verified_of_wellFormed hitem]
      refine ih ?_ _
      obtain ⟨other, hother, hbad⟩ := h
      rcases List.mem_cons.mp hother with rfl | hother
      · exact absurd hitem hbad
      · exact ⟨other, hother, hbad⟩
    · rw [verified_of_malformed hitem]

/-- A lookup fails with a malformed answer, whatever the other ones are. -/
theorem newestVerified_malformed (h : ∃ item ∈ items, ¬ WellFormed key item) :
    newestVerified key items =
      .error ⟨StatusCode.BAD_GATEWAY, "invalid Pkarr key or timestamp".toList⟩ := by
  cases items with
  | nil =>
    obtain ⟨item, hitem, -⟩ := h
    cases hitem
  | cons first items =>
    rw [newestVerified]
    by_cases hfirst : WellFormed key first
    · rw [verified_of_wellFormed hfirst]
      refine newestFrom_malformed ?_ first
      obtain ⟨other, hother, hbad⟩ := h
      rcases List.mem_cons.mp hother with rfl | hother
      · exact absurd hfirst hbad
      · exact ⟨other, hother, hbad⟩
    · rw [verified_of_malformed hfirst]

/-- Without malformed answers, a lookup comes to the newest one. -/
theorem newestVerified_wellFormed (hne : items ≠ []) (h : ∀ item ∈ items, WellFormed key item) :
    ∃ item, newestVerified key items = .ok item ∧ Newest key items item := by
  cases items with
  | nil => exact absurd rfl hne
  | cons first items =>
    obtain ⟨hmem, hle⟩ := picks_newer.foldl first items
    have hall := h
    rw [List.forall_mem_cons] at hall
    refine ⟨items.foldl newer first, ?_, hmem, h _ hmem, fun other hother _ => hle other hother⟩
    rw [newestVerified, verified_of_wellFormed hall.1]
    exact newestFrom_wellFormed hall.2 first

/-- The page shows the newest of the well-formed answers, if there is one. -/
theorem shownNewest_spec (h : ∃ item ∈ items, WellFormed key item) :
    ∃ item, shownNewest key items = some item ∧ Newest key items item := by
  have hmem (item : MutableItem) :
      item ∈ items.filter (fun item => 0 ≤ item.seq ∧ item.key = key) ↔
        item ∈ items ∧ WellFormed key item := by
    rw [List.mem_filter, decide_eq_true_eq, WellFormed]
  rw [shownNewest]
  cases hshown : items.filter fun item => 0 ≤ item.seq ∧ item.key = key with
  | nil =>
    obtain ⟨item, hitem⟩ := h
    rw [← hmem, hshown] at hitem
    cases hitem
  | cons first rest =>
    obtain ⟨hpicked, hle⟩ := picks_last.foldl first rest
    rw [hshown] at hmem
    obtain ⟨hitem, hwell⟩ := (hmem _).mp hpicked
    refine ⟨_, rfl, hitem, hwell, fun other hother hwell' => ?_⟩
    exact hle other ((hmem other).mpr ⟨hother, hwell'⟩)

/-- Two newest answers have one sequence. -/
theorem Newest.seq_eq {other : MutableItem} (h : Newest key items item)
    (hother : Newest key items other) : item.seq = other.seq :=
  le_antisymm (hother.newest item h.mem h.wellFormed) (h.newest other hother.mem hother.wellFormed)

/-- Serving and debugging pick the same sequence, the largest one of a well-formed answer. -/
def Agrees (key : PkarrKey) (items : List MutableItem) : Prop :=
  ∃ item, newestVerified key items = .ok item ∧ Newest key items item ∧
    (shownNewest key items).map MutableItem.seq = some item.seq

/-- Of answers of which one is well formed, the lookup picks the newest, which is the one on the
page, if and only if they all are. -/
theorem newest_agrees (h : ∃ item ∈ items, WellFormed key item) :
    Agrees key items ↔ ∀ item ∈ items, WellFormed key item := by
  constructor
  · rintro ⟨item, hok, -⟩ other hother
    by_contra hbad
    rw [newestVerified_malformed ⟨other, hother, hbad⟩] at hok
    cases hok
  · intro hall
    obtain ⟨first, hfirst, -⟩ := h
    obtain ⟨item, hok, hnewest⟩ := newestVerified_wellFormed (List.ne_nil_of_mem hfirst) hall
    obtain ⟨shown, hshown, hshown'⟩ := shownNewest_spec ⟨first, hfirst, hall first hfirst⟩
    refine ⟨item, hok, hnewest, ?_⟩
    rw [hshown, Option.map_some, hshown'.seq_eq hnewest]

end Newest

namespace NewestAnswer.Sample

def zeroKey : PkarrKey := .replicate 32 0

/-- An answer for the key. -/
def answerOf (seq : ℤ) : MutableItem := ⟨zeroKey, seq, [], none⟩

end NewestAnswer.Sample

open NewestAnswer in
/-- A second answer, with a negative sequence, spoils the first one, which the page shows. -/
theorem newest_agrees_fails :
    (∃ item ∈ [Sample.answerOf 5, Sample.answerOf (-1)], WellFormed Sample.zeroKey item) ∧
    newestVerified Sample.zeroKey [Sample.answerOf 5, Sample.answerOf (-1)] =
      .error ⟨StatusCode.BAD_GATEWAY, "invalid Pkarr key or timestamp".toList⟩ ∧
    shownNewest Sample.zeroKey [Sample.answerOf 5, Sample.answerOf (-1)] =
      some (Sample.answerOf 5) ∧
    ¬ Agrees Sample.zeroKey [Sample.answerOf 5, Sample.answerOf (-1)] := by
  have herror : newestVerified Sample.zeroKey [Sample.answerOf 5, Sample.answerOf (-1)] =
      .error ⟨StatusCode.BAD_GATEWAY, "invalid Pkarr key or timestamp".toList⟩ := by
    refine newestVerified_malformed ⟨Sample.answerOf (-1), by decide, fun h => ?_⟩
    exact absurd h.1 (by decide)
  refine ⟨⟨Sample.answerOf 5, List.mem_cons_self, by decide, rfl⟩, herror, by decide +kernel, ?_⟩
  rintro ⟨item, hok, -⟩
  rw [herror] at hok
  cases hok

open NewestAnswer in
theorem newest_agrees_sample :
    Agrees Sample.zeroKey [Sample.answerOf 5, Sample.answerOf 7] := by
  have hall : ∀ item ∈ [Sample.answerOf 5, Sample.answerOf 7],
      WellFormed Sample.zeroKey item := by
    rw [List.forall_mem_cons, List.forall_mem_singleton]
    exact ⟨⟨by decide, rfl⟩, by decide, rfl⟩
  exact (newest_agrees ⟨Sample.answerOf 5, List.mem_cons_self, hall _ List.mem_cons_self⟩).mpr hall

/-! ## Requests -/

/-- A request reads an answer, at a time. -/
def readTimed (r : PkarrRequest) (x : Instant × MutableItem) : Except HttpError PkarrRequest :=
  match r with
  | .resolving key started newest => readAnswer key started newest x.2 x.1
  | .resolved .. => .ok r

/-- What a request of the gateway keeps of the answers is what `newest_verified` makes of them. -/
theorem foldlM_readTimed (key : PkarrKey) (started now : Instant) (first : MutableItem)
    (items : List (Instant × MutableItem)) :
    ((now, first) :: items).foldlM readTimed (.resolving key started none) =
      (newestVerified key (first :: items.map Prod.snd)).map fun item =>
        .resolving key started (some (item, now + NEWEST_GRACE)) := by
  have hloop (newest : MutableItem) (deadline : Instant) :
      items.foldlM readTimed (.resolving key started (some (newest, deadline))) =
        (newestFrom key newest (items.map Prod.snd)).map fun item =>
          .resolving key started (some (item, deadline)) := by
    induction items generalizing newest with
    | nil => rfl
    | cons x items ih =>
      rw [List.foldlM_cons, List.map_cons, newestFrom, readTimed, readAnswer]
      cases verified x.2 key with
      | error error => rfl
      | ok item => exact ih (newer newest item)
  rw [List.foldlM_cons, newestVerified, readTimed, readAnswer]
  cases verified first key with
  | error error => rfl
  | ok newest => exact hloop newest (now + NEWEST_GRACE)

end ContentDiscovery
