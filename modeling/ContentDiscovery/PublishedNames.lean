import ContentDiscovery.PkarrPublisher

/-!
# What a publisher has published

What holds in every run of a `PkarrPublisher`: when `wait_published` returns, the packets
set before it was called have been put (`waited_put`); the items of a round have a higher
sequence than those of the rounds before it (`rounds_ascend`); and an edit that the
background task has not begun a round after keeps it from sleeping (`edit_wakes`).

A reading of the generation that is higher than it was when a packet was set was made
after it was set, so the round that made it signs this packet or a later one. That is
what `Tracked` follows through a run.
-/

namespace ContentDiscovery

namespace PkarrPublisher

variable {κ : Type} {w : PkarrPublisher κ} {e : Event κ} {task : Task κ} {t s rest : History κ}
  {key : PkarrKey} {first value : List UInt8} {n : ℕ} {x : Event κ × Outcome}

/-- The edits counted in a history. -/
def counted (t : History κ) : ℕ := t.countP fun x => x.1.isCount

theorem counted_concat (t : History κ) (x : Event κ × Outcome) :
    counted (t ++ [x]) = counted t + if x.1.isCount then 1 else 0 := by
  rw [counted, List.countP_append, List.countP_singleton]
  rfl

theorem counted_append (t s : History κ) : counted (t ++ s) = counted t + counted s :=
  List.countP_append

/-- A packet was set at first, or since. -/
def SetSince (key : PkarrKey) (first : List UInt8) (rest : History κ) (value : List UInt8) : Prop :=
  value = first ∨ ∃ x ∈ rest, ∃ call, x.1 = .set call key value

/-- An item with the first packet or a later one was put successfully. -/
def PutSince (key : PkarrKey) (first : List UInt8) (rest : History κ) : Prop :=
  ∃ x ∈ rest, ∃ item, x.2 = .put item true ∧ item.key = key ∧ SetSince key first rest item.value

theorem SetSince.concat (h : SetSince key first rest value) :
    SetSince key first (rest ++ [x]) value :=
  h.imp_right fun ⟨y, hy, hset⟩ => ⟨y, List.mem_append_left _ hy, hset⟩

theorem PutSince.concat (h : PutSince key first rest) : PutSince key first (rest ++ [x]) := by
  obtain ⟨y, hy, item, hput, hkey, hset⟩ := h
  exact ⟨y, List.mem_append_left _ hy, item, hput, hkey, hset.concat⟩

variable [DecidableEq κ]

theorem generation_run (h : machine.Run t w) : w.generation = counted t := by
  refine h.invariant (I := fun t w => w.generation = counted t) ?_ ?_
  · rintro w rfl
    rfl
  · intro t w e _ _ hgeneration
    rw [counted_concat, ← hgeneration]
    exact step_generation w e

/-- Nothing knows of a later generation. -/
structure Bounded (w : PkarrPublisher κ) : Prop where
  read : ∀ task g, w.rounds task = some (.read g) → g ≤ w.generation
  putting : ∀ task g items ok, w.rounds task = some (.putting g items ok) → g ≤ w.generation
  published : w.published ≤ w.generation

theorem Bounded.step (h : Bounded w) (e : Event κ) : Bounded (w.step e).1 := by
  have hle : w.generation ≤ (w.step e).1.generation := by
    rw [step_generation]
    exact Nat.le_add_right _ _
  refine ⟨?_, ?_, ?_⟩
  · intro task g hg
    apply le_trans ?_ hle
    have hstep := roundStep w task e
    generalize (w.step e).1.rounds task = r at hstep hg
    cases hstep with
    | idle => exact h.read task g hg
    | begins => cases hg
    | locks => cases hg
    | reads =>
      obtain rfl := Round.read.inj (Option.some.inj hg)
      exact le_rfl
    | signs => cases hg
    | puts => cases hg
    | ends => cases hg
  · intro task g items ok hg
    apply le_trans ?_ hle
    have hstep := roundStep w task e
    generalize (w.step e).1.rounds task = r at hstep hg
    cases hstep with
    | idle => exact h.putting task g items ok hg
    | begins => cases hg
    | locks => cases hg
    | reads => cases hg
    | signs hread =>
      obtain ⟨rfl, -⟩ := Round.putting.inj (Option.some.inj hg)
      exact h.read task _ hread
    | puts ok hput =>
      obtain ⟨rfl, -⟩ := Round.putting.inj (Option.some.inj hg)
      exact h.putting task _ _ _ hput
    | ends => cases hg
  · apply le_trans ?_ hle
    obtain hsame | ⟨task, g, hround, hnew⟩ := step_published w e
    · rw [hsame]
      exact h.published
    · rw [hnew]
      exact h.putting task g _ _ hround

theorem bounded_run (h : machine.Run t w) : Bounded w := by
  refine h.invariant (I := fun _ w => Bounded w) ?_ ?_
  · rintro w rfl
    refine ⟨?_, ?_, le_rfl⟩
    · intro task g hg
      simp only [new] at hg
      split at hg <;> cases hg
    · intro task g items ok hg
      simp only [new] at hg
      split at hg <;> cases hg
  · intro t w e _ _ hbounded
    exact hbounded.step e

/-! ## A packet that is set gets published -/

/-- What holds since a packet was set at generation `n`, as long as its key is not removed:
the packets hold it or a later one; a round that read a later generation, and has not
failed, is about to put such an item or has; and if a later generation is published, one
has been put. -/
structure Tracked (n : ℕ) (key : PkarrKey) (first : List UInt8) (rest : History κ)
    (w : PkarrPublisher κ) : Prop where
  packet : ∃ value, w.packets.lookup key = some value ∧ SetSince key first rest value
  round : ∀ task g items, w.rounds task = some (.putting g items true) → n < g →
    (∃ item ∈ items, item.key = key ∧ SetSince key first rest item.value) ∨
      PutSince key first rest
  published : n < w.published → PutSince key first rest

/-- The packet of a key that is set stays, or is replaced. -/
theorem packet_step {value : List UInt8} (h : w.packets.lookup key = some value)
    (he : ∀ call, e ≠ .remove call key) :
    (w.step e).1.packets.lookup key = some value ∨
      ∃ call packet, e = .set call key packet ∧
        (w.step e).1.packets.lookup key = some packet := by
  rw [step_packets]
  cases e with
  | set call key' packet =>
    rw [Event.packets, HashMap.lookup_insert_eq]
    split
    · rename_i heq
      exact .inr ⟨call, packet, by rw [heq], rfl⟩
    · exact .inl h
  | remove call key' =>
    rw [Event.packets, HashMap.lookup_erase_eq]
    split
    · rename_i heq
      exact absurd (heq ▸ rfl) (he call)
    · exact .inl h
  | _ => exact .inl h

/-- A round signs the packet of every key. -/
theorem mem_signAll {packets : HashMap PkarrKey (List UInt8)} {keys : List PkarrKey}
    {sequence : ℤ} {item : MutableItem} :
    item ∈ signAll packets keys sequence ↔
      item.key ∈ keys ∧ packets.lookup item.key = some item.value ∧ item.seq = sequence ∧
        item.salt = none := by
  simp only [signAll, List.mem_filterMap, Option.map_eq_some_iff]
  constructor
  · rintro ⟨key, hkey, packet, hpacket, rfl⟩
    exact ⟨hkey, hpacket, rfl, rfl⟩
  · rintro ⟨hkey, hpacket, rfl, hsalt⟩
    refine ⟨item.key, hkey, item.value, hpacket, ?_⟩
    cases item with
    | mk key seq value salt => exact congrArg _ hsalt.symm

/-- The packet has just been set. -/
theorem tracked_set (h : Bounded w) {call : κ} :
    Tracked w.generation key first [] (w.step (.set call key first)).1 := by
  refine ⟨?_, ?_, ?_⟩
  · refine ⟨first, ?_, .inl rfl⟩
    rw [step_packets, Event.packets, Finmap.lookup_insert]
  · intro task g items hround hlt
    exact absurd (h.putting task g items true hround) (not_le_of_gt hlt)
  · intro hlt
    exact absurd h.published (not_le_of_gt hlt)

theorem Tracked.step (h : Tracked n key first rest w) (hen : w.Enabled e)
    (he : ∀ call, e ≠ .remove call key) :
    Tracked n key first (rest ++ [(e, (w.step e).2)]) (w.step e).1 := by
  refine ⟨?_, ?_, ?_⟩
  · obtain ⟨value, hvalue, hset⟩ := h.packet
    obtain hsame | ⟨call, packet, rfl, hnew⟩ := packet_step hvalue he
    · exact ⟨value, hsame, hset.concat⟩
    · exact ⟨packet, hnew, .inr ⟨_, List.mem_append_right _ List.mem_cons_self, call, rfl⟩⟩
  · intro task g items hround hlt
    have hstep := roundStep w task e
    generalize (w.step e).1.rounds task = r at hstep hround
    cases hstep with
    | idle =>
      obtain ⟨item, hitem, hkey, hset⟩ | hput := h.round task g items hround hlt
      · exact .inl ⟨item, hitem, hkey, hset.concat⟩
      · exact .inr hput.concat
    | begins => cases hround
    | locks => cases hround
    | reads => cases hround
    | @signs g' now keys hread =>
      -- the packet is among those that are signed
      obtain ⟨rfl, rfl, -⟩ := Round.putting.inj (Option.some.inj hround)
      obtain ⟨value, hvalue, hset⟩ := h.packet
      refine .inl ⟨⟨key, nextSequence now w.previous, value, none⟩, ?_, rfl, hset.concat⟩
      rw [mem_signAll]
      refine ⟨(hen.2.2 key).mpr (Finmap.mem_of_lookup_eq_some hvalue), hvalue, rfl, rfl⟩
    | @puts g' item items' allOk ok hputting =>
      obtain ⟨rfl, rfl, hok⟩ := Round.putting.inj (Option.some.inj hround)
      obtain ⟨rfl, rfl⟩ := Bool.and_eq_true_iff.mp hok
      obtain ⟨item', hitem, hkey, hset⟩ | hput := h.round task g' _ hputting hlt
      · obtain rfl | hitem := List.mem_cons.mp hitem
        · refine .inr ⟨_, List.mem_append_right _ List.mem_cons_self, item', ?_, hkey, hset.concat⟩
          simp only [PkarrPublisher.step, hputting]
        · exact .inl ⟨item', hitem, hkey, hset.concat⟩
      · exact .inr hput.concat
    | ends => cases hround
  · intro hlt
    obtain hsame | ⟨task, g, hround, hnew⟩ := step_published w e
    · exact (h.published (hsame ▸ hlt)).concat
    · obtain ⟨item, hitem, -⟩ | hput := h.round task g [] hround (hnew ▸ hlt)
      · cases hitem
      · exact hput.concat

/-- A packet is tracked from when it is set until its key is removed. -/
theorem tracked_run {call : κ} {o : Outcome}
    (h : machine.Run (s ++ (.set call key first, o) :: rest) w)
    (hrest : ∀ x ∈ rest, ∀ call, x.1 ≠ .remove call key) :
    Tracked (counted s) key first rest w := by
  refine h.since (I := Tracked (counted s) key first) hrest ?_ ?_
  · intro w hrun _ _
    rw [← generation_run hrun]
    exact tracked_set (bounded_run hrun)
  · intro rest w e _ hen hremove htracked
    exact htracked.step hen hremove

/-! ## Waiting -/

/-- A call waits for the same generation until it returns. -/
theorem waits_step {call : κ} (h : w.waits call = some n) (hen : w.Enabled e)
    (he : e ≠ .waited call) : (w.step e).1.waits call = some n := by
  cases e with
  | waitPublished call' =>
    have hne : call ≠ call' := by
      rintro rfl
      cases h.symm.trans hen
    exact (Function.update_of_ne hne _ _).trans h
  | waited call' =>
    have hne : call ≠ call' := fun heq => he (heq ▸ rfl)
    exact (Function.update_of_ne hne _ _).trans h
  | remove call' key =>
    simp only [step]
    split <;> exact h
  | sign task clock keys =>
    simp only [step]
    split <;> exact h
  | put task ok =>
    simp only [step]
    split <;> exact h
  | finish task =>
    simp only [step]
    split <;> exact h
  | _ => exact h

/-- An edit that is made waits to be counted. -/
theorem made_step {call : κ} (h : w.edits call = some .made) (hen : w.Enabled e)
    (he : e ≠ .count call) : (w.step e).1.edits call = some .made := by
  cases e with
  | set call' key packet =>
    have hne : call ≠ call' := by
      rintro rfl
      cases h.symm.trans hen
    exact (Function.update_of_ne hne _ _).trans h
  | remove call' key =>
    have hne : call ≠ call' := by
      rintro rfl
      cases h.symm.trans hen
    simp only [step]
    split
    · exact (Function.update_of_ne hne _ _).trans h
    · exact h
  | count call' =>
    have hne : call ≠ call' := fun heq => he (heq ▸ rfl)
    exact (Function.update_of_ne hne _ _).trans h
  | notify call' =>
    have hne : call ≠ call' := by
      rintro rfl
      cases h.symm.trans hen
    exact (Function.update_of_ne hne _ _).trans h
  | sign task clock keys =>
    simp only [step]
    split <;> exact h
  | put task ok =>
    simp only [step]
    split <;> exact h
  | finish task =>
    simp only [step]
    split <;> exact h
  | _ => exact h

/-- A call waits for the edits that were counted before it. -/
theorem waits_run {call : κ} {o : Outcome}
    (h : machine.Run (s ++ (.waitPublished call, o) :: rest) w)
    (hrest : ∀ x ∈ rest, x.1 ≠ .waited call) : w.waits call = some (counted s) := by
  refine h.since (I := fun _ w => w.waits call = some (counted s)) hrest ?_ ?_
  · intro w hrun _ _
    rw [← generation_run hrun]
    exact Function.update_self ..
  · intro rest w e _ hen he hwaits
    exact waits_step hwaits hen he

/-- An edit that has returned has been counted. -/
theorem count_of_notify {call : κ} {packet : List UInt8} {o : Outcome}
    (h : machine.Run (s ++ (.set call key packet, o) :: rest) w)
    (hnotify : ∃ x ∈ rest, x.1 = .notify call) : ∃ x ∈ rest, x.1 = .count call := by
  obtain ⟨⟨e, o'⟩, hx, rfl⟩ := hnotify
  obtain ⟨before, after, rfl⟩ := List.append_of_mem hx
  rw [← List.cons_append, ← List.append_assoc] at h
  obtain ⟨w', hrun, hen, -⟩ := h.stepAt rfl
  by_contra hnone
  push Not at hnone
  have hmade : w'.edits call = some .made := by
    refine hrun.since (I := fun _ w => w.edits call = some .made)
      (C := fun x => x.1 ≠ .count call) ?_ ?_ ?_
    · exact fun x hx => hnone x (List.mem_append_left _ hx)
    · intro w _ _ _
      exact Function.update_self ..
    · intro rest w e _ hen he hmade
      exact made_step hmade hen he
  cases hmade.symm.trans hen

/-- When `wait_published` returns, a packet that was set before it was called, and whose key
was not removed since, has been put, or a later one for its key. -/
theorem waited_put {call call' : κ} {o o' : Outcome} {mid : History κ}
    (h : machine.Run
      (s ++ (.set call key first, o) :: (rest ++ (.waitPublished call', o') :: mid)) w)
    (hset : ∃ x ∈ rest, x.1 = .notify call)
    (hkept : ∀ x ∈ rest ++ (.waitPublished call', o') :: mid, ∀ call, x.1 ≠ .remove call key)
    (hmid : ∀ x ∈ mid, x.1 ≠ .waited call') (hreturn : w.Enabled (.waited call')) :
    PutSince key first (rest ++ (.waitPublished call', o') :: mid) := by
  have htracked := tracked_run h hkept
  obtain ⟨n, hn, hle⟩ := hreturn
  rw [← List.cons_append, ← List.append_assoc] at h
  have hwaits := waits_run h hmid
  obtain rfl := Option.some.inj (hn.symm.trans hwaits)
  apply htracked.published
  -- the edit was counted in between
  obtain ⟨w', hrun, -⟩ := h.stepAt rfl
  obtain ⟨x, hx, hcount⟩ := count_of_notify hrun hset
  have hpos : 0 < counted ((.set call key first, o) :: rest) := by
    rw [counted, List.countP_pos_iff]
    exact ⟨x, List.mem_cons_of_mem _ hx, by rw [hcount]; rfl⟩
  rw [counted_append] at hle
  omega

/-! ## Sequences -/

/-- The rounds that were signed, with their sequences. -/
def signedRounds (t : History κ) : List (ℤ × List MutableItem) :=
  t.filterMap fun x =>
    match x.2 with
    | .signed sequence items => some (sequence, items)
    | _ => none

/-- An item was put, with whatever outcome. -/
def PutItem (t : History κ) (item : MutableItem) : Prop := ∃ x ∈ t, ∃ ok, x.2 = .put item ok

/-- The packet that a history leaves for a key. -/
def Current (t : History κ) (key : PkarrKey) (packet : List UInt8) : Prop :=
  ∃ before call o after, t = before ++ (.set call key packet, o) :: after ∧
    ∀ x ∈ after, ∀ call, (∀ packet, x.1 ≠ .set call key packet) ∧ x.1 ≠ .remove call key

omit [DecidableEq κ] in
theorem mem_signedRounds {sequence : ℤ} {items : List MutableItem} :
    (sequence, items) ∈ signedRounds t ↔ ∃ x ∈ t, x.2 = .signed sequence items := by
  rw [signedRounds, List.mem_filterMap]
  refine exists_congr fun x => and_congr_right fun _ => ?_
  cases x.2 <;> simp

omit [DecidableEq κ] in
theorem signedRounds_append : signedRounds (t ++ s) = signedRounds t ++ signedRounds s :=
  List.filterMap_append

omit [DecidableEq κ] in
theorem signedRounds_mono {r : ℤ × List MutableItem} (h : r ∈ signedRounds t) :
    r ∈ signedRounds (t ++ s) := by
  rw [signedRounds_append]
  exact List.mem_append_left _ h

/-- A step signs a round, with the next sequence and the packets as they are, or it leaves
the sequence. -/
theorem step_signed (w : PkarrPublisher κ) (e : Event κ) :
    ((w.step e).1.previous = w.previous ∧ signedRounds [(e, (w.step e).2)] = []) ∨
      ∃ now keys, (w.step e).1.previous = nextSequence now w.previous ∧
        (w.step e).2 = .signed (nextSequence now w.previous)
          (signAll w.packets keys (nextSequence now w.previous)) := by
  cases e with
  | sign task clock keys =>
    simp only [step]
    split
    · rename_i now _
      exact .inr ⟨now, keys, rfl, rfl⟩
    · exact .inl ⟨rfl, rfl⟩
    · exact .inl ⟨rfl, rfl⟩
  | remove call key =>
    simp only [step]
    split <;> exact .inl ⟨rfl, rfl⟩
  | put task ok =>
    simp only [step]
    split <;> exact .inl ⟨rfl, rfl⟩
  | finish task =>
    simp only [step]
    split <;> exact .inl ⟨rfl, rfl⟩
  | _ => exact .inl ⟨rfl, rfl⟩

/-- Sequences grow, below the largest one. -/
theorem lt_nextSequence {now previous : ℤ} (hnonneg : 0 ≤ previous) (hmax : previous < i64Max) :
    previous < nextSequence now previous := by
  rw [i64Max] at hmax
  rw [nextSequence, Int.bmod_eq_of_le (by omega) (by omega)]
  exact lt_max_of_lt_right (by omega)

/-- The sequences of the rounds so far. -/
structure Ordered (t : History κ) (w : PkarrPublisher κ) : Prop where
  nonneg : 0 ≤ w.previous
  below : w.previous < i64Max
  le : ∀ r ∈ signedRounds t, r.1 ≤ w.previous
  ascend : (signedRounds t).Pairwise fun r r' => r.1 < r'.1

theorem ordered_run (h : machine.Run t w) (hmax : ∀ r ∈ signedRounds t, r.1 < i64Max) :
    Ordered t w := by
  revert hmax
  refine h.invariant
    (I := fun t w => (∀ r ∈ signedRounds t, r.1 < i64Max) → Ordered t w) ?_ ?_
  · rintro w rfl _
    exact ⟨le_rfl, show (0 : ℤ) < i64Max by decide, fun r hr => (nomatch hr), List.Pairwise.nil⟩
  · intro t w e _ _ ih hmax
    have hordered := ih fun r hr => hmax r (signedRounds_mono hr)
    obtain ⟨hprevious, hnone⟩ | ⟨now, keys, hprevious, hout⟩ := step_signed w e
    · have hsame : signedRounds (t ++ [(e, (w.step e).2)]) = signedRounds t := by
        rw [signedRounds_append, hnone, List.append_nil]
      refine ⟨?_, ?_, ?_, ?_⟩
      · exact hprevious ▸ hordered.nonneg
      · exact hprevious ▸ hordered.below
      · exact hsame ▸ hprevious ▸ hordered.le
      · exact hsame ▸ hordered.ascend
    · have hlt : w.previous < nextSequence now w.previous :=
        lt_nextSequence hordered.nonneg hordered.below
      have hround : signedRounds (t ++ [(e, (w.step e).2)]) = signedRounds t ++
          [(nextSequence now w.previous,
            signAll w.packets keys (nextSequence now w.previous))] := by
        rw [signedRounds_append, hout]
        rfl
      have hbelow : nextSequence now w.previous < i64Max := by
        refine hmax (nextSequence now w.previous,
          signAll w.packets keys (nextSequence now w.previous)) ?_
        change _ ∈ signedRounds (t ++ [(e, (w.step e).2)])
        rw [hround]
        exact List.mem_append_right _ List.mem_cons_self
      refine ⟨?_, ?_, ?_, ?_⟩
      · exact hprevious ▸ hordered.nonneg.trans hlt.le
      · exact hprevious ▸ hbelow
      · intro r hr
        change r ∈ signedRounds (t ++ [(e, (w.step e).2)]) at hr
        change r.1 ≤ (w.step e).1.previous
        rw [hround] at hr
        rw [hprevious]
        obtain hr | hr := List.mem_append.mp hr
        · exact (hordered.le r hr).trans hlt.le
        · rw [List.mem_singleton.mp hr]
      · change List.Pairwise _ (signedRounds (t ++ [(e, (w.step e).2)]))
        rw [hround, List.pairwise_append]
        refine ⟨hordered.ascend, List.pairwise_singleton _ _, fun r hr r' hr' => ?_⟩
        rw [List.mem_singleton.mp hr']
        exact (hordered.le r hr).trans_lt hlt

/-- The items of a round share its sequence. -/
theorem seq_run (h : machine.Run t w) :
    ∀ r ∈ signedRounds t, ∀ item ∈ r.2, item.seq = r.1 := by
  refine h.invariant (I := fun t _ => ∀ r ∈ signedRounds t, ∀ item ∈ r.2, item.seq = r.1) ?_ ?_
  · intro w _ r hr
    cases hr
  · intro t w e _ _ ih r hr
    change r ∈ signedRounds (t ++ [(e, (w.step e).2)]) at hr
    rw [signedRounds_append, List.mem_append] at hr
    obtain hr | hr := hr
    · exact ih r hr
    · obtain ⟨-, hnone⟩ | ⟨now, keys, -, hout⟩ := step_signed w e
      · rw [hnone] at hr
        cases hr
      · rw [hout] at hr
        obtain rfl := List.mem_singleton.mp hr
        intro item hitem
        exact (mem_signAll.mp hitem).2.2.1

/-- The items of a later round have a higher sequence. -/
theorem rounds_ascend (h : machine.Run t w) (hmax : ∀ r ∈ signedRounds t, r.1 < i64Max) :
    (signedRounds t).Pairwise fun r r' => ∀ x ∈ r.2, ∀ y ∈ r'.2, x.seq < y.seq := by
  refine (ordered_run h hmax).ascend.imp_of_mem fun {r r'} hr hr' hlt x hx y hy => ?_
  rw [seq_run h r hr x hx, seq_run h r' hr' y hy]
  exact hlt

/-- The items of the rounds under way have been signed, and so have those that were put. -/
theorem putting_run (h : machine.Run t w) :
    (∀ task g items ok, w.rounds task = some (.putting g items ok) →
        ∃ r ∈ signedRounds t, ∀ item ∈ items, item ∈ r.2) ∧
      ∀ item, PutItem t item → ∃ r ∈ signedRounds t, item ∈ r.2 := by
  refine h.invariant (I := fun t w =>
    (∀ task g items ok, w.rounds task = some (.putting g items ok) →
        ∃ r ∈ signedRounds t, ∀ item ∈ items, item ∈ r.2) ∧
      ∀ item, PutItem t item → ∃ r ∈ signedRounds t, item ∈ r.2) ?_ ?_
  · rintro w rfl
    refine ⟨?_, ?_⟩
    · intro task g items ok hround
      simp only [new] at hround
      split at hround <;> cases hround
    · rintro item ⟨x, hx, -⟩
      cases hx
  · rintro t w e - - ⟨hputting, hput⟩
    refine ⟨?_, ?_⟩
    · intro task g items ok hround
      have hstep := roundStep w task e
      change (w.step e).1.rounds task = _ at hround
      generalize hr : (w.step e).1.rounds task = r at hstep hround
      cases hstep with
      | idle =>
        obtain ⟨r, hmem, hall⟩ := hputting task g items ok hround
        exact ⟨r, signedRounds_mono hmem, hall⟩
      | begins => cases hround
      | locks => cases hround
      | reads => cases hround
      | @signs g' now keys hread =>
        obtain ⟨rfl, rfl, rfl⟩ := Round.putting.inj (Option.some.inj hround)
        refine ⟨(nextSequence now w.previous,
          signAll w.packets keys (nextSequence now w.previous)), ?_, fun item hitem => hitem⟩
        rw [mem_signedRounds]
        refine ⟨_, List.mem_append_right _ List.mem_cons_self, ?_⟩
        simp only [machine, step, hread]
      | @puts g' item items' allOk ok hround' =>
        obtain ⟨rfl, rfl, rfl⟩ := Round.putting.inj (Option.some.inj hround)
        obtain ⟨r, hmem, hall⟩ := hputting task g' _ _ hround'
        exact ⟨r, signedRounds_mono hmem, fun item hitem =>
          hall item (List.mem_cons_of_mem _ hitem)⟩
      | ends => cases hround
    · rintro item ⟨x, hx, ok, hout⟩
      obtain hx | hx := List.mem_append.mp hx
      · obtain ⟨r, hmem, hitem⟩ := hput item ⟨x, hx, ok, hout⟩
        exact ⟨r, signedRounds_mono hmem, hitem⟩
      · obtain rfl := List.mem_singleton.mp hx
        obtain ⟨task, g, items, allOk, -, hround⟩ := step_put w e hout
        obtain ⟨r, hmem, hall⟩ := hputting task g _ _ hround
        exact ⟨r, signedRounds_mono hmem, hall item List.mem_cons_self⟩

/-- The packets are those that were set last. -/
theorem current_run (h : machine.Run t w) (hvalue : w.packets.lookup key = some value) :
    Current t key value := by
  revert value
  refine h.invariant
    (I := fun t w => ∀ {value}, w.packets.lookup key = some value → Current t key value) ?_ ?_
  · rintro w rfl value hvalue
    cases hvalue
  · intro t w e _ hen ih value hvalue
    change (w.step e).1.packets.lookup key = some value at hvalue
    have hlookup := hvalue
    rw [step_packets] at hvalue
    have hkeep : w.packets.lookup key = some value →
        (∀ call, (∀ packet, e ≠ .set call key packet) ∧ e ≠ .remove call key) →
          Current (t ++ [(e, (w.step e).2)]) key value := by
      intro hold he
      obtain ⟨before, call, o, after, rfl, hafter⟩ := ih hold
      refine ⟨before, call, o, after ++ [(e, (w.step e).2)], by simp, fun x hx => ?_⟩
      obtain hx | hx := List.mem_append.mp hx
      · exact hafter x hx
      · rw [List.mem_singleton.mp hx]
        exact he
    cases e with
    | set call key' packet =>
      rw [Event.packets, HashMap.lookup_insert_eq] at hvalue
      split at hvalue
      · rename_i heq
        obtain rfl := Option.some.inj hvalue
        subst heq
        refine ⟨t, call, _, [], rfl, ?_⟩
        intro x hx
        cases hx
      · rename_i hne
        refine hkeep hvalue fun call' => ⟨?_, ?_⟩
        · intro packet' heq
          exact hne (Event.set.inj heq).2.1.symm
        · intro heq
          cases heq
    | remove call key' =>
      rw [Event.packets, HashMap.lookup_erase_eq] at hvalue
      split at hvalue
      · cases hvalue
      · rename_i hne
        refine hkeep hvalue fun call' => ⟨?_, ?_⟩
        · intro packet' heq
          cases heq
        · intro heq
          exact hne (Event.remove.inj heq).2.symm
    | _ =>
      refine hkeep hvalue fun call' => ⟨?_, ?_⟩
      · intro packet' heq
        cases heq
      · intro heq
        cases heq

/-- Whoever signs, signs the packets that were set last. -/
theorem signed_current (h : machine.Run t w) {before after : History κ} {o : Outcome}
    {sequence : ℤ} {items : List MutableItem} (ht : t = before ++ (e, o) :: after)
    (ho : o = .signed sequence items) {item : MutableItem} (hitem : item ∈ items) :
    Current before item.key item.value := by
  obtain ⟨w', hrun, -, hout⟩ := h.stepAt ht
  obtain ⟨-, hnone⟩ | ⟨now, keys, -, hsigned⟩ := step_signed w' e
  · rw [show (w'.step e).2 = .signed sequence items from hout.symm.trans ho] at hnone
    cases hnone
  · obtain ⟨rfl, rfl⟩ := Outcome.signed.inj (ho.symm.trans (hout.trans hsigned))
    exact current_run hrun (mem_signAll.mp hitem).2.1

/-- Of the items put for a key, the one with the highest sequence carries the packet that
was the newest when it was signed, and no item that was signed later has been put. -/
theorem highest_newest (h : machine.Run t w) (hmax : ∀ r ∈ signedRounds t, r.1 < i64Max)
    {best : MutableItem} (hput : PutItem t best)
    (hbest : ∀ x, PutItem t x → x.key = best.key → x.seq ≤ best.seq) :
    ∃ before e sequence items after, t = before ++ (e, .signed sequence items) :: after ∧
      best ∈ items ∧ Current before best.key best.value ∧
        ∀ r ∈ signedRounds after, ∀ x ∈ r.2, x.key = best.key → ¬ PutItem t x := by
  obtain ⟨⟨sequence, items⟩, hr, hitem⟩ := (putting_run h).2 best hput
  obtain ⟨⟨e, o⟩, hx, rfl⟩ := mem_signedRounds.mp hr
  obtain ⟨before, after, ht⟩ := List.append_of_mem hx
  refine ⟨before, e, sequence, items, after, ht, hitem, signed_current h ht rfl hitem, ?_⟩
  intro r hr' x hx' hkey hputx
  have hascend := rounds_ascend h hmax
  have hsplit :
      signedRounds t = signedRounds before ++ (sequence, items) :: signedRounds after := by
    rw [ht, signedRounds_append]
    rfl
  rw [hsplit, List.pairwise_append, List.pairwise_cons] at hascend
  have hlt : best.seq < x.seq := hascend.2.1.1 r hr' best hitem x hx'
  exact absurd (hbest x hputx hkey) (not_le_of_gt hlt)

/-! ## Waking -/

/-- The task is to wake until it begins a round. -/
theorem permit_run {call : κ} {o : Outcome} (h : machine.Run (s ++ (.notify call, o) :: rest) w)
    (hrest : ∀ x ∈ rest, x.1 ≠ .woken ∧ x.1 ≠ .timer) : w.permit = true := by
  refine h.since (I := fun _ w => w.permit = true) hrest ?_ ?_
  · intro w _ _ _
    rfl
  · intro rest w e _ _ he hpermit
    cases e with
    | woken => exact absurd rfl he.1
    | notify call => rfl
    | remove call key =>
      simp only [machine, step]
      split <;> exact hpermit
    | sign task clock keys =>
      simp only [machine, step]
      split <;> exact hpermit
    | put task ok =>
      simp only [machine, step]
      split <;> exact hpermit
    | finish task =>
      simp only [machine, step]
      split <;> exact hpermit
    | _ => exact hpermit

/-- When `wait_published` returns, the packets set before it was called and not removed since
have been put, or later ones. The items of a later round have a higher sequence, below the
largest one, so that of the items put for a key the highest one carries the newest packet.
And unless the background task has begun a round since an edit, it is ready to begin one
whenever it waits. -/
theorem publishes_edits (h : machine.Run t w) :
    (∀ s call key packet o rest call' o' mid,
        t = s ++ (.set call key packet, o) :: (rest ++ (.waitPublished call', o') :: mid) →
          (∃ x ∈ rest, x.1 = .notify call) →
          (∀ x ∈ rest ++ (.waitPublished call', o') :: mid, ∀ call, x.1 ≠ .remove call key) →
          (∀ x ∈ mid, x.1 ≠ .waited call') → w.Enabled (.waited call') →
            PutSince key packet (rest ++ (.waitPublished call', o') :: mid)) ∧
      ((∀ r ∈ signedRounds t, r.1 < i64Max) →
        (signedRounds t).Pairwise (fun r r' => ∀ x ∈ r.2, ∀ y ∈ r'.2, x.seq < y.seq) ∧
          ∀ best, PutItem t best →
            (∀ x, PutItem t x → x.key = best.key → x.seq ≤ best.seq) →
              ∃ before e sequence items after,
                t = before ++ (e, .signed sequence items) :: after ∧ best ∈ items ∧
                  Current before best.key best.value ∧
                    ∀ r ∈ signedRounds after, ∀ x ∈ r.2, x.key = best.key → ¬ PutItem t x) ∧
      ∀ s call o rest, t = s ++ (.notify call, o) :: rest →
        (∀ x ∈ rest, x.1 ≠ .woken ∧ x.1 ≠ .timer) → w.rounds .background = none →
          w.Enabled .woken ∧ (w.step .woken).1.rounds .background = some .locking := by
  refine ⟨?_, ?_, ?_⟩
  · rintro s call key packet o rest call' o' mid rfl hset hkept hmid hreturn
    exact waited_put h hset hkept hmid hreturn
  · intro hmax
    refine ⟨rounds_ascend h hmax, ?_⟩
    intro best hput hbest
    exact highest_newest h hmax hput hbest
  · rintro s call o rest rfl hrest hwaits
    refine ⟨⟨hwaits, permit_run h hrest⟩, ?_⟩
    exact (rounds_setRound ..).trans (if_pos rfl)

namespace Sample

def name : PkarrKey := .replicate 32 9

abbrev Input : Type := Event ℕ

end Sample

open Sample in
/-- A packet is set, and put in the round of the background task; the wait is over. -/
theorem publishes_edits_sample : ∃ rest, ∃ w : PkarrPublisher ℕ,
    machine.Run ((.set 1 name [1, 2], .none) :: rest) w ∧ w.Enabled (.waited 2) ∧
      PutSince name [1, 2] rest := by
  have h₀ : machine.Run [] (new : PkarrPublisher ℕ) := .start rfl
  have h₁ := h₀.step (a := (.set 1 name [1, 2] : Input)) (by rfl)
  have h₂ := h₁.step (a := (.count 1 : Input)) (by rfl)
  have h₃ := h₂.step (a := (.notify 1 : Input)) (by rfl)
  have h₄ := h₃.step (a := (.waitPublished 2 : Input)) (by rfl)
  have h₅ := h₄.step (a := (.lock .background : Input)) ⟨by rfl, by rfl⟩
  have h₆ := h₅.step (a := (.readGeneration .background : Input)) (by rfl)
  have h₇ := h₆.step (a := (.sign .background (some 1000) [name] : Input))
    ⟨⟨1, by rfl⟩, by decide, fun key => by
      change key ∈ [name] ↔ key ∈ Finmap.insert name [1, 2] ∅
      rw [Finmap.mem_insert, List.mem_singleton]
      exact (or_iff_left Finmap.notMem_empty).symm⟩
  have h₈ := h₇.step (a := (.put .background true : Input))
    ⟨1, ⟨name, 1000, [1, 2], none⟩, [], true, by rfl⟩
  have h₉ := h₈.step (a := (.finish .background : Input)) ⟨1, true, by rfl⟩
  refine ⟨_, _, h₉, ⟨1, by rfl, by decide +kernel⟩, ?_⟩
  exact (publishes_edits h₉).1 [] 1 name [1, 2] _ [_, _] 2 _ [_, _, _, _, _] rfl
    ⟨_, .tail _ (.head _), rfl⟩ (by simp) (by simp) ⟨1, by rfl, by decide +kernel⟩

end PkarrPublisher

end ContentDiscovery
