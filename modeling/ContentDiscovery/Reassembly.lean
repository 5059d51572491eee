import ContentDiscovery.ServeBlob

/-!
# Reassembly

`stream_content` and `sniff` of `iroh-link-gateway/src/lib.rs` put the leaves that a provider
sends together. The leaves hold bytes of the blob, but the provider chooses which, and in what
order: what the loops make of them is exact, or an error (`reassembly_exact`).
-/

namespace ContentDiscovery

open Http

variable {blob : Blob}

/-- The first items, and no read that comes back after them. -/
def AtBlobContent.cut : ℕ → AtBlobContent blob → AtBlobContent blob
  | 0, _ => .pending
  | n + 1, .more item next => .more item (next.cut n)
  | _ + 1, .elapsed => .elapsed
  | _ + 1, .done next => .done next
  | _ + 1, .pending => .pending

/-- The positions that are cut out of a leaf are positions of its data, and computing them does
not underflow. -/
structure Leaf.Within (leaf : Leaf blob) (clip : HalfOpen UInt64) : Prop where
  start : (clip.start - leaf.offset).toNat = clip.start.toNat - leaf.offset.toNat
  offset_le : leaf.offset ≤ clip.start
  ordered : (clip.start - leaf.offset).toNat ≤ (clip.stop - leaf.offset).toNat
  stop_le : (clip.stop - leaf.offset).toNat ≤ leaf.data.length

/-! ## The start of a blob -/

/-- `SNIFF_BYTES`. -/
def SNIFF_BYTES : UInt64 := 8192

/-- How much `sniff` takes of a leaf. -/
def Leaf.sniffed (leaf : Leaf blob) : ℕ :=
  min (saturatingSub SNIFF_BYTES leaf.offset).toNat leaf.data.length

/-- The loop of `sniff`, with the bytes so far. It has no deadline: a read that does not come
back, however long it takes, leaves it without a result. -/
def sniffFrom :
    List UInt8 → AtBlobContent blob → Option (Except Str (List UInt8 × EndBlobNext))
  | _, .pending => none
  | _, .elapsed => none
  | _, .more (.error text) _ => some (.error text)
  | taken, .more (.ok .parent) next => sniffFrom taken next
  | taken, .more (.ok (.leaf leaf)) next =>
    if 0 < leaf.sniffed then
      if leaf.offset ≠ .ofNat taken.length then some (.error "noncontiguous prefix".toList)
      else sniffFrom (taken ++ leaf.data.take leaf.sniffed) next
    else sniffFrom taken next
  | taken, .done next => some (.ok (taken, next))

/-- The end of `sniff`. -/
def sniffEnd (size : UInt64) (taken : List UInt8) :
    EndBlobNext → Option (Except Str (UInt64 × List UInt8))
  | .moreChildren => some (.error "unexpected child blob".toList)
  | .closing .elapsed => none
  | .closing (.returned (.error text)) => some (.error text)
  | .closing (.returned (.ok ())) =>
    if .ofNat taken.length = min size SNIFF_BYTES then some (.ok (size, taken))
    else some (.error "incomplete prefix".toList)

/-- `sniff`, from what `start` returns for the chunks up to `SNIFF_BYTES` and the last one. -/
def sniff (started : Except Str (AtBlobContent blob × UInt64)) :
    Option (Except Str (UInt64 × List UInt8)) :=
  match started with
  | .error text => some (.error text)
  | .ok (content, size) =>
    match sniffFrom [] content with
    | none => none
    | some (.error text) => some (.error text)
    | some (.ok (taken, next)) => sniffEnd size taken next

/-! ## A range -/

section Range

variable {range : HalfOpen UInt64} {content : AtBlobContent blob} {offset : UInt64}
  {leaf : Leaf blob}

theorem Leaf.within_clip (h : (leaf.clip range).start < (leaf.clip range).stop) :
    leaf.Within (leaf.clip range) := by
  have hfirst : leaf.offset ≤ (leaf.clip range).start := le_max_left _ _
  have hlast : (leaf.clip range).stop ≤ leaf.offset + .ofNat leaf.data.length := min_le_left _ _
  rw [UInt64.le_iff_toNat_le, leaf.toNat_stop] at hlast
  have hstart := UInt64.toNat_sub_of_le _ _ hfirst
  have hstop := UInt64.toNat_sub_of_le _ _ (hfirst.trans h.le)
  rw [UInt64.lt_iff_toNat_lt] at h
  exact ⟨hstart, hfirst, by omega, by omega⟩

/-- Whatever the items, what was yielded starts what is to be yielded. -/
theorem streamFrom_prefix (hstop : offset ≤ range.stop) :
    (streamFrom range offset content).bytes <+: blob.slice ⟨offset, range.stop⟩ := by
  induction content generalizing offset with
  | elapsed => exact List.nil_prefix
  | pending => exact List.nil_prefix
  | done next =>
    rw [streamFrom]
    split
    · exact List.nil_prefix
    · obtain _ | (_ | (_ | ⟨⟩)) := next <;> exact List.nil_prefix
  | more item next ih =>
    obtain text | (_ | leaf) := item
    · exact List.nil_prefix
    · exact ih hstop
    · rw [streamFrom]
      split
      · rename_i hlt
        split
        · exact List.nil_prefix
        · rename_i heq
          rw [ne_eq, not_not] at heq
          have hrange : (leaf.clip range).stop ≤ range.stop := min_le_right _ _
          obtain ⟨hslice, -⟩ := Leaf.slice_clip hlt
          have hclip : leaf.clip range = ⟨offset, (leaf.clip range).stop⟩ := by rw [← heq]
          rw [Body.bytes, hslice, ← blob.slice_append (heq ▸ hlt.le) hrange, hclip]
          exact (List.prefix_append_right_inj _).mpr (ih hrange)
      · exact ih hstop

/-- With more items, more is yielded. -/
theorem streamFrom_cut (n : ℕ) :
    (streamFrom range offset (content.cut n)).bytes <+:
      (streamFrom range offset content).bytes := by
  induction content generalizing offset n with
  | elapsed => cases n <;> exact List.nil_prefix
  | pending => cases n <;> exact List.nil_prefix
  | done next =>
    cases n with
    | zero => exact List.nil_prefix
    | succ n => exact List.prefix_rfl
  | more item next ih =>
    cases n with
    | zero => exact List.nil_prefix
    | succ n =>
      rw [AtBlobContent.cut]
      obtain text | (_ | leaf) := item
      · exact List.nil_prefix
      · exact ih n
      · rw [streamFrom, streamFrom]
        split
        · split
          · exact List.nil_prefix
          · exact (List.prefix_append_right_inj _).mpr (ih n)
        · exact ih n

end Range

/-! ## What is sniffed -/

section Sniff

variable {content : AtBlobContent blob} {taken result : List UInt8} {next : EndBlobNext}
  {leaf : Leaf blob} {size : UInt64}

/-- A leaf goes on where the bytes so far end. -/
theorem take_append_sniffed (htaken : taken = blob.bytes.take taken.length)
    (hoffset : leaf.offset.toNat = taken.length) :
    taken ++ leaf.data.take leaf.sniffed = blob.bytes.take (taken.length + leaf.sniffed) := by
  have hle : leaf.sniffed ≤ leaf.data.length := min_le_right _ _
  rw [List.take_add, ← htaken, ← leaf.verified, List.take_take, min_eq_left hle, hoffset]

/-- The bytes so far start the blob, and are no more than asked for. -/
theorem sniffFrom_ok (htaken : taken = blob.bytes.take taken.length)
    (hle : taken.length ≤ SNIFF_BYTES.toNat)
    (h : sniffFrom taken content = some (.ok (result, next))) :
    result = blob.bytes.take result.length ∧ result.length ≤ SNIFF_BYTES.toNat := by
  induction content generalizing taken with
  | elapsed => cases h
  | pending => cases h
  | done next =>
    cases h
    exact ⟨htaken, hle⟩
  | more item rest ih =>
    obtain text | (_ | leaf) := item
    · cases h
    · exact ih htaken hle h
    · rw [sniffFrom] at h
      split at h
      · split at h
        · cases h
        · rename_i heq
          rw [ne_eq, not_not] at heq
          have hlt : taken.length < 2 ^ 64 := hle.trans_lt SNIFF_BYTES.toNat_lt
          have hoffset : leaf.offset.toNat = taken.length := by
            rw [heq, UInt64.toNat_ofNat_of_lt' hlt]
          have hnext := take_append_sniffed htaken hoffset
          have hsniffed : leaf.sniffed ≤ SNIFF_BYTES.toNat - leaf.offset.toNat :=
            (min_le_left _ _).trans_eq (toNat_saturatingSub _ _)
          have hlength : (taken ++ leaf.data.take leaf.sniffed).length
              = taken.length + leaf.sniffed := by
            have htake : min leaf.sniffed leaf.data.length = leaf.sniffed :=
              min_eq_left (min_le_right _ _)
            rw [List.length_append, List.length_take, htake]
          refine ih (hnext.trans (by rw [hlength])) ?_ h
          rw [hlength]
          omega
      · exact ih htaken hle h

/-- What is sniffed is the start of the blob. -/
theorem sniff_ok {started : Except Str (AtBlobContent blob × UInt64)}
    (h : sniff started = some (.ok (size, taken))) :
    taken = blob.bytes.take (min size.toNat SNIFF_BYTES.toNat) ∧
      taken.length = min size.toNat SNIFF_BYTES.toNat := by
  obtain text | ⟨content, announced⟩ := started
  · cases h
  rw [sniff] at h
  split at h
  · cases h
  · cases h
  · rename_i result next hloop
    obtain ⟨hresult, hle⟩ := sniffFrom_ok rfl (Nat.zero_le _) hloop
    obtain _ | (_ | (_ | ⟨⟩)) := next
    · cases h
    · cases h
    · cases h
    · rw [sniffEnd] at h
      split at h
      · rename_i hlength
        cases h
        rw [← UInt64.toNat_inj,
          UInt64.toNat_ofNat_of_lt' (hle.trans_lt SNIFF_BYTES.toNat_lt)] at hlength
        have hmin : (min size SNIFF_BYTES).toNat = min size.toNat SNIFF_BYTES.toNat := by
          rcases le_total size SNIFF_BYTES with hsize | hsize
          · rw [min_eq_left hsize, min_eq_left (UInt64.le_iff_toNat_le.mp hsize)]
          · rw [min_eq_right hsize, min_eq_right (UInt64.le_iff_toNat_le.mp hsize)]
        rw [hmin] at hlength
        rw [← hlength]
        exact ⟨hresult, rfl⟩
      · cases h

end Sniff

/-- The leaves of a blob are put together exactly, or not at all: after any number of items a
stream has yielded a start of its range, an end without an error means all of it, and no slice
leaves its leaf. What `sniff` returns is the start of the blob. -/
theorem reassembly_exact (content : AtBlobContent blob) {range : HalfOpen UInt64}
    (hrange : range.start < range.stop) :
    (∀ n, (streamContent (content.cut n) range).bytes <+: (streamContent content range).bytes) ∧
      (streamContent content range).bytes <+: blob.slice range ∧
      ((streamContent content range).Ends →
        (streamContent content range).bytes = blob.slice range ∧
          (blob.slice range).length = range.stop.toNat - range.start.toNat) ∧
      (∀ leaf : Leaf blob, (leaf.clip range).start < (leaf.clip range).stop →
        leaf.Within (leaf.clip range)) ∧
      ∀ (started : Except Str (AtBlobContent blob × UInt64)) (size : UInt64) (taken : List UInt8),
        sniff started = some (.ok (size, taken)) →
          taken = blob.bytes.take (min size.toNat SNIFF_BYTES.toNat) ∧
            taken.length = min size.toNat SNIFF_BYTES.toNat := by
  exact ⟨fun n => streamFrom_cut n, streamFrom_prefix hrange.le,
    fun hends => streamContent_bytes hrange.le hends, fun leaf h => Leaf.within_clip h,
    fun started size taken h => sniff_ok h⟩

namespace Reassembly.Sample

def twoBytes : Blob := ⟨[1, 2], by decide⟩

def bothBytes : Leaf twoBytes := ⟨0, [1, 2], rfl⟩

end Reassembly.Sample

open Reassembly in
/-- The second byte is cut out of a leaf with both. -/
theorem reassembly_exact_sample :
    (⟨1, 2⟩ : HalfOpen UInt64).start < (⟨1, 2⟩ : HalfOpen UInt64).stop ∧
    (streamContent (.more (.ok (.leaf Sample.bothBytes)) .pending) ⟨1, 2⟩).bytes = [2] ∧
    (streamContent (.more (.ok (.leaf Sample.bothBytes)) .pending) ⟨1, 2⟩).bytes <+:
      Sample.twoBytes.slice ⟨1, 2⟩ :=
  ⟨by decide, by decide, (reassembly_exact _ (by decide)).2.1⟩

end ContentDiscovery
