import ContentDiscovery.Discovery
import ContentDiscovery.IndexKeeper
import ContentDiscovery.RetryLoop

/-!
# The republisher of a server list

`iroh-mainline-endpoint-discovery/src/republisher.rs`: a signed server list is published at once and
renewed from then on, whether or not the servers it names are up. What Mainline makes of it is up to
the environment; it may also take too long.
-/

namespace ContentDiscovery

/-- Time between a publication and the next one: 10 minutes. -/
def RENEW : ℕ := 600 * 10 ^ 9

/-- The longest a publication may take: 30 seconds. -/
def TIMEOUT : ℕ := 30 * 10 ^ 9

/-- `PutQueryError`. -/
inductive PutQueryError where
  /-- the node has stopped -/
  | shutdown
  /-- any other one -/
  | other
  deriving DecidableEq

/-- `PutMutableError`. -/
inductive PutMutableError where
  | query (error : PutQueryError)
  /-- there is a newer item, or one of the same sequence -/
  | concurrency
  deriving DecidableEq

/-- What comes of a publication, unless it takes too long. -/
abbrev PutResult : Type := Option (Except PutMutableError Unit)

/-- Why a list is not published. -/
inductive RepublishError where
  /-- "Pkarr records must not have a salt" -/
  | salted
  /-- "invalid server list" -/
  | invalid
  deriving DecidableEq

/-- `renew`. -/
def renew : RetryLoop PutResult PutMutableError where
  verdict
    | some (.ok ()) => .ok RENEW
    | some (.error .concurrency) => .error .concurrency
    | some (.error (.query .shutdown)) => .error (.query .shutdown)
    | some (.error (.query .other)) => .ok RETRY
    | none => .ok RETRY
  timeout := some (TIMEOUT, none)

/-- `republish_server_list`: the loop that publishes an item. -/
def republishServerList {Name : Type} [BEq Name] (dns : Dns Name) (z : Z32) (item : MutableItem) :
    Except RepublishError (RetryLoop PutResult PutMutableError) :=
  if item.salt.isSome then .error .salted
  else if item.seq < 0 ∨ (ServerList.decode dns z item.value item.key).isNone then .error .invalid
  else .ok renew

namespace Republisher

open RetryLoop (attempts Attempt)

variable {Name : Type} [BEq Name] {dns : Dns Name} {z : Z32} {item : MutableItem}
  {loop : RetryLoop PutResult PutMutableError} {lag start : ℕ}
  {t : List (RetryLoop.Event PutResult × Option (Attempt PutResult))}
  {s : RetryLoop.State PutMutableError}

/-- What stops the renewal: a sequence conflict, or the end of the node. -/
def Final (result : PutResult) : Prop :=
  result = some (.error .concurrency) ∨ result = some (.error (.query .shutdown))

/-- How long it is until the next publication. -/
def delayAfter : PutResult → ℕ
  | some (.ok ()) => RENEW
  | _ => RETRY

theorem delayAfter_of_ne {result : PutResult} (h : result ≠ some (.ok ())) :
    delayAfter result = RETRY := by
  cases result with
  | none => rfl
  | some result =>
    cases result with
    | ok result => exact absurd rfl h
    | error error => rfl

theorem verdict_cases (result : PutResult) :
    (Final result ∧ ∃ error, result = some (.error error) ∧ renew.verdict result = .error error) ∨
      ¬ Final result ∧ renew.verdict result = .ok (delayAfter result) := by
  cases result with
  | none => exact .inr ⟨by simp [Final], rfl⟩
  | some result =>
    cases result with
    | ok result => exact .inr ⟨by simp [Final], rfl⟩
    | error error =>
      cases error with
      | concurrency => exact .inl ⟨.inl rfl, _, rfl, rfl⟩
      | query error =>
        cases error with
        | shutdown => exact .inl ⟨.inr rfl, _, rfl, rfl⟩
        | other => exact .inr ⟨by simp [Final], rfl⟩

theorem verdict_error {result : PutResult} {error : PutMutableError} :
    renew.verdict result = .error error ↔ Final result ∧ result = some (.error error) := by
  obtain ⟨hfinal, error', rfl, hverdict⟩ | ⟨hfinal, hverdict⟩ := verdict_cases result
  · simp [hverdict, hfinal]
  · simp [hverdict, hfinal]

theorem verdict_ok {result : PutResult} {delay : ℕ} :
    renew.verdict result = .ok delay ↔ ¬ Final result ∧ delay = delayAfter result := by
  obtain ⟨hfinal, error', rfl, hverdict⟩ | ⟨hfinal, hverdict⟩ := verdict_cases result
  · simp [hverdict, hfinal]
  · simp [hverdict, hfinal, eq_comm]

theorem republishServerList_ok :
    republishServerList dns z item = .ok loop ↔ Discovery.Acceptable dns z item ∧ loop = renew := by
  rw [republishServerList, Discovery.Acceptable, Discovery.listOf]
  split
  · rename_i hsalt
    refine iff_of_false (by simp) fun h => ?_
    rw [h.1.1] at hsalt
    cases hsalt
  · rename_i hsalt
    rw [Option.not_isSome_iff_eq_none] at hsalt
    split
    · rename_i hinvalid
      refine iff_of_false (by simp) fun h => ?_
      rcases hinvalid with hseq | hnone
      · exact hseq.not_ge h.1.2.1
      · rw [Option.isNone_iff_eq_none] at hnone
        rw [hnone] at h
        cases h.1.2.2
    · rename_i hvalid
      rw [not_or, not_lt, Bool.not_eq_true, Option.isNone_eq_false_iff] at hvalid
      rw [Except.ok.injEq, eq_comm (a := renew)]
      exact ⟨fun h => ⟨⟨hsalt, hvalid⟩, h⟩, fun h => h.2⟩

/-- The pauses of publications that failed. -/
theorem sum_pause_failed {after : List (Attempt PutResult)}
    (h : ∀ b ∈ after, b.outcome ≠ some (.ok ())) :
    (after.map renew.pause).sum ≤ after.length * RETRY := by
  induction after with
  | nil => exact Nat.zero_le _
  | cons b after ih =>
    obtain ⟨hb, hafter⟩ := List.forall_mem_cons.mp h
    have hpause : renew.pause b ≤ RETRY := by
      rw [RetryLoop.pause]
      obtain ⟨-, error, -, hverdict⟩ | ⟨-, hverdict⟩ := verdict_cases b.outcome
      · rw [hverdict]
        exact Nat.zero_le _
      · rw [hverdict, delayAfter_of_ne hb]
        exact le_rfl
    have hrest := ih hafter
    rw [List.map_cons, List.sum_cons, List.length_cons, Nat.succ_mul]
    omega

/-- **A server list is kept published.** Only a list that discovery accepts is. The first
publication is at the start; from the end of a publication it is ten minutes until the next one, or
half a minute if it failed or took too long. The loop ends with the first conflict or when the node
stops, and with no other error. While it goes on, the time since it last succeeded is bounded by
the failures since. -/
theorem server_list_renewed (hitem : republishServerList dns z item = .ok loop)
    (h : (loop.machine lag start).Run t s) :
    (∀ state : DiscoveryState, (∀ old ∈ state.signed, Discovery.Newer item old) →
      Discovery.accept dns z state item = ⟨some item⟩) ∧
    ((∀ a, (attempts t).head? = some a → a.since = start) ∧
      (attempts t).IsChain (fun a b => ¬ Final a.outcome ∧
        a.now + delayAfter a.outcome ≤ b.since ∧
        b.since ≤ a.now + delayAfter a.outcome + lag)) ∧
    (∀ error, s.pc = .returned error ↔ ∃ a, (attempts t).getLast? = some a ∧ Final a.outcome ∧
      a.outcome = some (.error error)) ∧
    ∀ before a after, attempts t = before ++ a :: after → a.outcome = some (.ok ()) →
      (∀ b ∈ after, b.outcome ≠ some (.ok ())) → (∀ error, s.pc ≠ .returned error) →
        s.clock ≤ a.now + RENEW + after.length * RETRY +
          (after.length + 1) * (TIMEOUT + 2 * lag) := by
  obtain ⟨haccept, rfl⟩ := republishServerList_ok.mp hitem
  have hkept := RetryLoop.kept_run h
  refine ⟨fun state hnewer => ?_, ⟨hkept.first, ?_⟩, fun error => ⟨fun hpc => ?_, ?_⟩, ?_⟩
  · rw [Discovery.accept_of haccept, if_pos hnewer]
  · refine hkept.chain.imp fun a b hnext => ?_
    obtain ⟨delay, hverdict, hle, hlag⟩ := hnext
    obtain ⟨hfinal, rfl⟩ := verdict_ok.mp hverdict
    exact ⟨hfinal, hle, hlag⟩
  · obtain ⟨a, hlast, hverdict⟩ := hkept.returned error hpc
    exact ⟨a, hlast, verdict_error.mp hverdict⟩
  · rintro ⟨a, hlast, hfinal, houtcome⟩
    have hverdict := verdict_error.mpr ⟨hfinal, houtcome⟩
    obtain ⟨error', hpc⟩ := hkept.returned_iff.mpr ⟨a, error, hlast, hverdict⟩
    obtain ⟨b, hb, hverdict'⟩ := hkept.returned error' hpc
    rw [hlast] at hb
    obtain rfl := Option.some.inj hb
    rw [hverdict] at hverdict'
    rw [hpc, Except.error.inj hverdict']
  · intro before a after hattempts hok hfailed hpc
    have hclock := hkept.clock_le rfl hattempts hpc
    have hsum := sum_pause_failed hfailed
    have hpause : renew.pause a = RENEW := by
      rw [RetryLoop.pause, hok]
      rfl
    rw [List.map_cons, List.sum_cons, hpause] at hclock
    omega

namespace Sample

/-- A list of one server. -/
def signed : MutableItem :=
  ⟨Discovery.Sample.key, 1, Discovery.Sample.wire Discovery.Sample.listed, none⟩

theorem signed_published :
    republishServerList Discovery.Sample.dns Z32.standard signed = .ok renew :=
  republishServerList_ok.mpr ⟨by decide +kernel, rfl⟩

/-- It is published, and the next publication takes too long. -/
def steps : List (RetryLoop.Event PutResult) :=
  [.ended (some (.ok ())), .tick RENEW, .woken, .tick TIMEOUT, .ended none]

theorem follows_steps :
    (renew.machine 0 0).Follows [] ⟨0, .trying 0⟩ steps := by
  refine ⟨?_, ?_, ?_, ?_, ?_, trivial⟩
  · rintro limit ⟨⟩ heq
    cases heq
  · exact le_rfl
  · exact le_rfl
  · rintro limit ⟨⟩
    exact le_rfl
  · rintro limit ⟨⟩ -
    exact le_rfl

end Sample

/-- A renewal that takes too long, and how old the list is by then. -/
theorem server_list_renewed_sample : ∃ t s, (renew.machine 0 0).Run t s ∧
    (attempts t).length = 2 ∧ s.clock ≤ RENEW + RETRY + 2 * TIMEOUT := by
  have hrun := (Machine.Run.start (M := renew.machine 0 0) rfl).follows Sample.follows_steps
  obtain ⟨-, -, -, hage⟩ := server_list_renewed Sample.signed_published hrun
  refine ⟨_, _, hrun, rfl, ?_⟩
  have hclock := hage [] ⟨0, 0, some (.ok ())⟩ [⟨RENEW, RENEW + TIMEOUT, none⟩] ?_ rfl ?_ ?_
  · simp only [List.length_singleton] at hclock
    omega
  · rfl
  · rintro b hb
    rw [List.mem_singleton.mp hb]
    exact nofun
  · exact nofun

end Republisher

end ContentDiscovery
