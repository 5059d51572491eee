import ContentDiscovery.Background

/-!
# One gateway, and requests that reach it

What holds of gateways and launchers that share a state directory, in any interleaving and wherever
they are killed. `Safe` says who has the locks; with one gateway at a time, a request to stop stays
for the gateway that has removed an old one.
-/

/-- Something that meets `Q` came later than something that meets `P`. -/
def Later {α : Type} (P Q : α → Prop) (t : List α) : Prop :=
  ∃ before x after, t = before ++ x :: after ∧ P x ∧ ∃ y ∈ after, Q y

/-- The later one is the last, or there was one before. -/
theorem later_concat {α : Type} {P Q : α → Prop} {t : List α} {y : α} :
    Later P Q (t ++ [y]) ↔ Later P Q t ∨ (∃ x ∈ t, P x) ∧ Q y := by
  constructor
  · rintro ⟨before, x, after, heq, hx, z, hz, hQ⟩
    rcases List.eq_nil_or_concat after with rfl | ⟨after', w, rfl⟩
    · cases hz
    rw [List.concat_eq_append, ← List.cons_append, ← List.append_assoc] at heq
    obtain ⟨rfl, hyw⟩ := List.append_inj' heq rfl
    obtain rfl := List.singleton_inj.mp hyw
    rw [List.concat_eq_append] at hz
    rcases List.mem_append.mp hz with hz | hz
    · exact .inl ⟨before, x, after', rfl, hx, z, hz, hQ⟩
    · obtain rfl := List.mem_singleton.mp hz
      exact .inr ⟨⟨x, List.mem_append_right _ List.mem_cons_self, hx⟩, hQ⟩
  · rintro (⟨before, x, after, rfl, hx, z, hz, hQ⟩ | ⟨⟨x, hmem, hx⟩, hQ⟩)
    · exact ⟨before, x, after ++ [y], by simp, hx, z, List.mem_append_left _ hz, hQ⟩
    · obtain ⟨before, after, rfl⟩ := List.append_of_mem hmem
      exact ⟨before, x, after ++ [y], by simp, hx, y, by simp, hQ⟩

namespace ContentDiscovery

namespace Background

variable {G L : Type} [DecidableEq G] [DecidableEq L]

/-! ## The locks -/

/-- The launcher has taken the lock of the gateway, to see whether it can. -/
def LauncherPc.Probed : LauncherPc G → Prop
  | .probed _ => True
  | _ => False

/-- Who has the locks. -/
structure Safe (s : State G L) : Prop where
  /-- the gateways that hold have the lock of the gateway -/
  gateway : ∀ g, (s.gateway g).Holds ↔ s.lock = some (.gateway g)
  /-- or launchers that have taken it -/
  probed : ∀ l, (s.launcher l).Probed ↔ s.lock = some (.launcher l)
  /-- a launcher that acts has the other lock -/
  launcher : ∀ l, (s.launcher l).Acts → s.launcherLock = some l
  /-- no file, no lock -/
  file : s.lockFile = false → s.lock = none

variable {s s' : State G L}

omit [DecidableEq G] [DecidableEq L] in
/-- The files do not matter. -/
theorem Safe.files (h : Safe s) {lockFile : Bool} (hfile : lockFile = false → s.lockFile = false)
    (stop ready : Bool) : Safe { s with lockFile := lockFile, stop := stop, ready := ready } :=
  ⟨h.gateway, h.probed, h.launcher, fun hnone => h.file (hfile hnone)⟩

omit [DecidableEq G] [DecidableEq L] in
theorem Safe.free (h : Safe s) (hfree : s.lock = none) :
    (∀ g, ¬ (s.gateway g).Holds) ∧ ∀ l, ¬ (s.launcher l).Probed :=
  ⟨fun g hg => absurd (hfree.symm.trans ((h.gateway g).mp hg)) nofun,
    fun l hl => absurd (hfree.symm.trans ((h.probed l).mp hl)) nofun⟩

omit [DecidableEq G] [DecidableEq L] in
/-- One gateway has the lock. -/
theorem Safe.one (h : Safe s) {g g' : G} (hg : (s.gateway g).Holds) (hg' : (s.gateway g').Holds) :
    g = g' := by
  have hlock := (h.gateway g).mp hg
  rw [(h.gateway g').mp hg'] at hlock
  exact (Holder.gateway.inj (Option.some.inj hlock)).symm

omit [DecidableEq G] [DecidableEq L] in
/-- One launcher acts. -/
theorem Safe.alone (h : Safe s) {l l' : L} (hl : (s.launcher l).Acts)
    (hl' : (s.launcher l').Acts) : l = l' :=
  Option.some.inj ((h.launcher l hl).symm.trans (h.launcher l' hl'))

omit [DecidableEq G] [DecidableEq L] in
/-- A launcher that finds the lock taken has found a gateway. -/
theorem Safe.busy (h : Safe s) {l : L} (hacts : (s.launcher l).Acts)
    (hprobed : ¬ (s.launcher l).Probed) {holder : Holder G L} (hlock : s.lock = some holder) :
    ∃ g, (s.gateway g).Holds := by
  cases holder with
  | gateway g => exact ⟨g, (h.gateway g).mpr hlock⟩
  | launcher l' =>
    have hl' := (h.probed l').mpr hlock
    have hacts' : (s.launcher l').Acts := by
      revert hl'
      cases s.launcher l' with
      | probed why => exact fun _ => trivial
      | _ => exact False.elim
    obtain rfl := h.alone hacts hacts'
    exact absurd hl' hprobed

omit [DecidableEq L] in
theorem Safe.setGateway (h : Safe s) {g : G} {pc : GatewayPc}
    (hpc : pc.Holds ↔ (s.gateway g).Holds) : Safe (s.setGateway g pc) := by
  refine ⟨fun g' => ?_, h.probed, h.launcher, h.file⟩
  rw [State.gateway_setGateway, State.lock_setGateway, ← h.gateway g']
  split
  · rename_i heq
    rw [heq, hpc]
  · rfl

theorem Safe.endGateway (h : Safe s) (g : G) : Safe (s.endGateway g) := by
  refine ⟨fun g' => ?_, fun l => ?_, h.launcher, fun hnone => ?_⟩
  · rw [State.gateway_endGateway, State.lock_endGateway]
    by_cases heq : g' = g
    · rw [if_pos heq, heq]
      exact ⟨False.elim, fun hlock => by split at hlock <;> contradiction⟩
    · rw [if_neg heq, h.gateway g']
      split
      · rename_i hlock
        rw [hlock]
        simpa using Ne.symm heq
      · rfl
  · rw [State.launcher_endGateway, State.lock_endGateway, h.probed l]
    split
    · rename_i hlock
      rw [hlock]
      simp
    · rfl
  · rw [State.lock_endGateway, h.file hnone, ite_self]

omit [DecidableEq L] in
/-- A gateway takes a lock that is free. -/
theorem Safe.take (h : Safe s) (hfree : s.lock = none) (g : G) :
    Safe { s.setGateway g .locked with lockFile := true, lock := some (.gateway g) } := by
  refine ⟨fun g' => ?_, fun l => ?_, h.launcher, nofun⟩
  · change ((s.setGateway g .locked).gateway g').Holds ↔ some (Holder.gateway g) = _
    rw [State.gateway_setGateway]
    split
    · rename_i heq
      exact iff_of_true trivial (heq ▸ rfl)
    · rename_i hne
      exact iff_of_false ((h.free hfree).1 g') (by simpa using Ne.symm hne)
  · exact iff_of_false ((h.free hfree).2 l) (by simp)

omit [DecidableEq G] in
theorem Safe.setLauncher (h : Safe s) {l : L} {pc : LauncherPc G}
    (hold : ¬ (s.launcher l).Probed) (hnew : ¬ pc.Probed)
    (hacts : pc.Acts → (s.launcher l).Acts) : Safe (s.setLauncher l pc) := by
  refine ⟨h.gateway, fun l' => ?_, fun l' hl' => ?_, h.file⟩
  · rw [State.launcher_setLauncher, State.lock_setLauncher, ← h.probed l']
    split
    · rename_i heq
      rw [heq]
      exact iff_of_false hnew hold
    · rfl
  · rw [State.launcher_setLauncher] at hl'
    split at hl'
    · rename_i heq
      exact h.launcher l' (heq ▸ hacts hl')
    · exact h.launcher l' hl'

theorem Safe.endLauncher (h : Safe s) (l : L) : Safe (s.endLauncher l) := by
  refine ⟨fun g => ?_, fun l' => ?_, fun l' hl' => ?_, fun hnone => ?_⟩
  · rw [State.gateway_endLauncher, State.lock_endLauncher, h.gateway g]
    split
    · rename_i hlock
      rw [hlock]
      simp
    · rfl
  · rw [State.launcher_endLauncher, State.lock_endLauncher]
    by_cases heq : l' = l
    · rw [if_pos heq, heq]
      exact ⟨False.elim, fun hlock => by split at hlock <;> contradiction⟩
    · rw [if_neg heq, h.probed l']
      split
      · rename_i hlock
        rw [hlock]
        simpa using Ne.symm heq
      · rfl
  · rw [State.launcher_endLauncher] at hl'
    split at hl'
    · exact hl'.elim
    · rename_i hne
      have hlock := h.launcher l' hl'
      rw [State.launcherLock_endLauncher, hlock, if_neg (by simpa using hne)]
  · have hlock := h.file hnone
    rw [State.lock_endLauncher, hlock, ite_self]

omit [DecidableEq G] in
/-- A launcher takes the lock of launchers. -/
theorem Safe.enter (h : Safe s) (hfree : s.launcherLock = none) {l : L} {pc : LauncherPc G}
    (hold : ¬ (s.launcher l).Probed) (hnew : ¬ pc.Probed) :
    Safe { s.setLauncher l pc with launcherLock := some l } := by
  refine ⟨h.gateway, fun l' => ?_, fun l' hl' => ?_, h.file⟩
  · change ((s.setLauncher l pc).launcher l').Probed ↔ _
    rw [State.launcher_setLauncher, State.lock_setLauncher, ← h.probed l']
    split
    · rename_i heq
      rw [heq]
      exact iff_of_false hnew hold
    · rfl
  · change ((s.setLauncher l pc).launcher l').Acts at hl'
    rw [State.launcher_setLauncher] at hl'
    split at hl'
    · rename_i heq
      rw [heq]
    · exact nomatch hfree.symm.trans (h.launcher l' hl')

omit [DecidableEq G] in
/-- A launcher takes the lock of the gateway. -/
theorem Safe.probe (h : Safe s) (hfile : s.lockFile = true) (hfree : s.lock = none) {l : L}
    {why : Probe G}
    (hacts : (s.launcher l).Acts) :
    Safe { s.setLauncher l (.probed why) with lock := some (.launcher l) } := by
  refine ⟨fun g => ?_, fun l' => ?_, fun l' hl' => ?_,
    fun hnone => nomatch hnone.symm.trans hfile⟩
  · exact iff_of_false ((h.free hfree).1 g) (by simp)
  · change ((s.setLauncher l (.probed why)).launcher l').Probed ↔ some (Holder.launcher l) = _
    rw [State.launcher_setLauncher]
    split
    · rename_i heq
      exact iff_of_true trivial (heq ▸ rfl)
    · rename_i hne
      exact iff_of_false ((h.free hfree).2 l') (by simpa using Ne.symm hne)
  · change ((s.setLauncher l (.probed why)).launcher l').Acts at hl'
    rw [State.launcher_setLauncher] at hl'
    split at hl'
    · rename_i heq
      exact heq ▸ h.launcher l hacts
    · exact h.launcher l' hl'

/-- A launcher ends, or goes on to look for something else. -/
inductive Goes (s : State G L) (l : L) : State G L → Prop where
  /-- it ends -/
  | ends : Goes s l (s.endLauncher l)
  /-- it goes on -/
  | sets (pc : LauncherPc G) (hprobed : ¬ pc.Probed) (hacts : pc.Acts)
    (hawaits : pc.Awaits → (s.launcher l).Awaits) :
    Goes s l (s.setLauncher l pc)

/-- So it does once it knows whether a gateway runs. -/
theorem goes_known {l : L} {why : Probe G} (running : Bool)
    (hwhy : s.launcher l = .probing why ∨ s.launcher l = .probed why) :
    Goes s l (s.known l running why).1 := by
  rcases why with ⟨- | - | -⟩ | child | -
  case start =>
    have hawaits : (s.launcher l).Awaits := by
      rcases hwhy with hwhy | hwhy
      · rw [hwhy]
        trivial
      · rw [hwhy]
        trivial
    cases running
    · exact .sets (.waiting child) id trivial fun _ => hawaits
    · exact .sets (.looking child) id trivial fun _ => hawaits
  all_goals cases running
  all_goals
    first
    | exact .ends
    | exact .sets _ id trivial False.elim

theorem Safe.goes (h : Safe s) {l : L} (hgoes : Goes s l s') (hacts : (s.launcher l).Acts)
    (hold : ¬ (s.launcher l).Probed) : Safe s' := by
  cases hgoes with
  | ends => exact h.endLauncher l
  | sets pc hprobed _ _ => exact h.setLauncher hold hprobed fun _ => hacts

/-- A launcher closes the lock again. -/
theorem Safe.unlock (h : Safe s) {l : L} (hprobed : (s.launcher l).Probed)
    (hacts : (s.launcher l).Acts) (hgoes : Goes { s with lock := none } l s') : Safe s' := by
  have hlock := (h.probed l).mp hprobed
  have hgateway (g : G) : ¬ (s.gateway g).Holds := fun hg => by
    have hheld := (h.gateway g).mp hg
    rw [hlock] at hheld
    cases hheld
  have hother {l' : L} (hne : l' ≠ l) : ¬ (s.launcher l').Probed := fun hl' => by
    have hheld := (h.probed l').mp hl'
    rw [hlock] at hheld
    exact hne (Holder.launcher.inj (Option.some.inj hheld)).symm
  -- nobody has the lock now
  cases hgoes with
  | ends =>
    refine ⟨fun g => iff_of_false (hgateway g) ?_, fun l' => iff_of_false ?_ ?_, fun l' hl' => ?_,
      fun _ => by simp⟩
    · simp
    · rw [State.launcher_endLauncher]
      split
      · exact id
      · exact hother ‹_›
    · simp
    · rw [State.launcher_endLauncher] at hl'
      split at hl'
      · exact hl'.elim
      · rename_i hne
        have hheld := h.launcher l' hl'
        rw [State.launcherLock_endLauncher]
        change (if s.launcherLock = some l then none else s.launcherLock) = some l'
        rw [hheld, if_neg (by simpa using hne)]
  | sets pc hpc _ _ =>
    refine ⟨fun g => iff_of_false (hgateway g) nofun, fun l' => iff_of_false ?_ nofun,
      fun l' hl' => ?_, fun _ => rfl⟩
    · rw [State.launcher_setLauncher]
      split
      · exact hpc
      · exact hother ‹_›
    · rw [State.launcher_setLauncher] at hl'
      split at hl'
      · rename_i heq
        exact heq ▸ h.launcher l hacts
      · exact h.launcher l' hl'

theorem safe_gateway (h : Safe s) {g : G} {act : GatewayAct} (hen : s.GatewayEnabled g act) :
    Safe (s.stepGateway g act) := by
  have hkeeps {old : GatewayPc} (pc : GatewayPc) (heq : s.gateway g = old)
      (hpc : pc.Holds ↔ old.Holds) : Safe (s.setGateway g pc) := h.setGateway (heq ▸ hpc)
  cases act with
  | start => exact hkeeps .starting hen Iff.rfl
  | tryLock =>
    rw [State.stepGateway]
    split
    · rename_i hfree
      exact h.take hfree g
    · have hfile : true = false → (s.endGateway g).lockFile = false := nofun
      exact (h.endGateway g).files hfile s.stop s.ready
  | removeStop => exact (hkeeps .unstopped hen Iff.rfl).files id false s.ready
  | removeReady => exact (hkeeps .unready hen Iff.rfl).files id s.stop false
  | acquire => exact hkeeps .acquired hen Iff.rfl
  | bind => exact hkeeps .bound hen Iff.rfl
  | ready => exact (hkeeps .serving hen Iff.rfl).files id s.stop true
  | stopped => exact hkeeps .dropping hen.1 Iff.rfl
  | quit =>
    rcases hen with hen | hen | hen
    · exact hkeeps .dropping hen Iff.rfl
    · exact hkeeps .dropping hen Iff.rfl
    · exact hkeeps .dropping hen Iff.rfl
  | dropReady removed => exact (hkeeps .dropped hen Iff.rfl).files id s.stop _
  | dropStop removed => exact (hkeeps .closing hen Iff.rfl).files id _ s.ready
  | close | exit => exact h.endGateway g

theorem safe_launcher (h : Safe s) {l : L} {act : LauncherAct G} (hen : s.LauncherEnabled l act) :
    Safe (s.stepLauncher l act).1 := by
  have hsets {old : LauncherPc G} (pc : LauncherPc G) (heq : s.launcher l = old)
      (hold : ¬ old.Probed) (hnew : ¬ pc.Probed) (hacts : pc.Acts → old.Acts) :
      Safe (s.setLauncher l pc) := by
    subst heq
    exact h.setLauncher hold hnew hacts
  cases act with
  | launch action => exact hsets (.entering action) hen id id id
  | enter =>
    obtain ⟨action, hentering⟩ := hen
    simp only [State.stepLauncher, hentering]
    cases hfree : s.launcherLock with
    | none => exact h.enter hfree (by rw [hentering]; exact id) id
    | some l' => exact h.endLauncher l
  | missing =>
    obtain ⟨-, why, hprobing⟩ := hen
    simp only [State.stepLauncher, hprobing]
    exact h.goes (goes_known false (.inl hprobing)) (by rw [hprobing]; trivial)
      (by rw [hprobing]; exact id)
  | tryLock =>
    obtain ⟨hfile, why, hprobing⟩ := hen
    have hacts : (s.launcher l).Acts := by
      rw [hprobing]
      trivial
    simp only [State.stepLauncher, hprobing]
    cases hfree : s.lock with
    | none => exact h.probe hfile hfree hacts
    | some holder =>
      exact h.goes (goes_known true (.inl hprobing)) hacts (by rw [hprobing]; exact id)
  | unlock =>
    obtain ⟨why, hprobed⟩ := hen
    simp only [State.stepLauncher, hprobed]
    exact h.unlock (by rw [hprobed]; trivial) (by rw [hprobed]; trivial)
      (goes_known false (.inr hprobed))
  | removeReady => exact (hsets .spawning hen id id fun _ => trivial).files id s.stop false
  | spawn child =>
    have hstart : Safe (s.setGateway child .starting) := h.setGateway (by rw [hen.2]; rfl)
    refine hstart.setLauncher ?_ id fun _ => ?_
    · rw [State.launcher_setGateway, hen.1]
      exact id
    · rw [State.launcher_setGateway, hen.1]
      trivial
  | exited | exit => exact h.endLauncher l
  | again =>
    obtain ⟨child, hwaiting, -⟩ := hen
    simp only [State.stepLauncher, hwaiting]
    exact hsets _ hwaiting id id fun _ => trivial
  | look =>
    obtain ⟨child, hlooking⟩ := hen
    simp only [State.stepLauncher, hlooking]
    split
    · exact h.endLauncher l
    · exact hsets _ hlooking id id fun _ => trivial
  | kill =>
    obtain ⟨child, hwaiting⟩ := hen
    simp only [State.stepLauncher, hwaiting]
    exact (h.endGateway child).endLauncher l
  | write => exact (hsets .polling hen id id fun _ => trivial).files id true s.ready
  | poll => exact hsets _ hen id id fun _ => trivial

/-- The locks are kept, by every run. -/
theorem safe_run {t : List (Event G L × Option Bool)} (h : (machine G L).Run t s) : Safe s := by
  refine h.invariant (I := fun _ s => Safe s) (fun s hs => ?_) fun t s e _ hen hsafe => ?_
  · obtain ⟨hlock, -, hgateway, hlauncher⟩ := hs
    refine ⟨fun g => ?_, fun l => ?_, fun l hl => ?_, fun _ => hlock⟩
    · rw [hgateway g, hlock]
      exact iff_of_false id nofun
    · rw [hlauncher l, hlock]
      exact iff_of_false id nofun
    · rw [hlauncher l] at hl
      exact hl.elim
  · cases e with
    | gateway g act => exact safe_gateway hsafe hen
    | launcher l act => exact safe_launcher hsafe hen

/-! ## Requests to stop -/

/-- A gateway removes an old `stop`. -/
def RemovesStop (g : G) (x : Event G L × Option Bool) : Prop :=
  x.1 = .gateway g .removeStop

/-- A launcher writes `stop`. -/
def WritesStop (x : Event G L × Option Bool) : Prop :=
  ∃ l, x.1 = .launcher l .write

/-- The gateway has not removed an old `stop` yet. -/
def GatewayPc.Fresh : GatewayPc → Prop
  | .off | .starting | .locked => True
  | _ => False

variable {t : List (Event G L × Option Bool)}

theorem GatewayPc.Listens.holds {pc : GatewayPc} (h : pc.Listens) : pc.Holds := by
  cases pc with
  | off | starting | locked | closing | gone => exact h.elim
  | unstopped | unready | acquired | bound | serving | dropping | dropped => trivial

/-- What `stop` tells the gateways. -/
structure Stops (t : List (Event G L × Option Bool)) (s : State G L) : Prop where
  /-- one that has not removed an old request -/
  fresh : ∀ g, (s.gateway g).Fresh → ∀ x ∈ t, ¬ RemovesStop g x
  /-- one that listens -/
  removed : ∀ g, (s.gateway g).Listens → ∃ x ∈ t, RemovesStop g x
  /-- there is one exactly if it was made since -/
  listens : ∀ g, (s.gateway g).Listens → (s.stop = true ↔ Later (RemovesStop g) WritesStop t)

/-- The step has nothing to do with requests. -/
structure Quiet (s s' : State G L) : Prop where
  /-- the file stays -/
  stop : s'.stop = s.stop
  /-- no gateway begins -/
  fresh : ∀ g, (s'.gateway g).Fresh → (s.gateway g).Fresh
  /-- or to listen -/
  listens : ∀ g, (s'.gateway g).Listens → (s.gateway g).Listens

omit [DecidableEq G] [DecidableEq L] in
theorem Stops.quiet (h : Stops t s) (hquiet : Quiet s s') {y : Event G L × Option Bool}
    (hremoves : ∀ g, ¬ RemovesStop g y) (hwrites : ¬ WritesStop y) : Stops (t ++ [y]) s' := by
  refine ⟨fun g hg x hx => ?_, fun g hg => ?_, fun g hg => ?_⟩
  · rcases List.mem_append.mp hx with hx | hx
    · exact h.fresh g (hquiet.fresh g hg) x hx
    · rw [List.mem_singleton.mp hx]
      exact hremoves g
  · obtain ⟨x, hx, hremoved⟩ := h.removed g (hquiet.listens g hg)
    exact ⟨x, List.mem_append_left _ hx, hremoved⟩
  · rw [hquiet.stop, h.listens g (hquiet.listens g hg), later_concat]
    exact ⟨.inl, fun hlater => hlater.resolve_right fun hnew => hwrites hnew.2⟩

omit [DecidableEq L] in
theorem quiet_setGateway {g : G} {pc : GatewayPc} (hfresh : pc.Fresh → (s.gateway g).Fresh)
    (hlistens : pc.Listens → (s.gateway g).Listens) : Quiet s (s.setGateway g pc) := by
  refine ⟨rfl, fun g' hg' => ?_, fun g' hg' => ?_⟩
  · rw [State.gateway_setGateway] at hg'
    split at hg'
    · rename_i heq
      exact heq ▸ hfresh hg'
    · exact hg'
  · rw [State.gateway_setGateway] at hg'
    split at hg'
    · rename_i heq
      exact heq ▸ hlistens hg'
    · exact hg'

theorem quiet_endGateway (g : G) : Quiet s (s.endGateway g) :=
  have hset : Quiet s (s.setGateway g .gone) := quiet_setGateway False.elim False.elim
  ⟨rfl, hset.fresh, hset.listens⟩

theorem quiet_goes {l : L} (hgoes : Goes s l s') : Quiet s s' := by
  cases hgoes with
  | ends => exact ⟨rfl, fun _ => id, fun _ => id⟩
  | sets => exact ⟨rfl, fun _ => id, fun _ => id⟩

/-- Apart from these two, no step of a gateway has to do with requests to others. -/
theorem quiet_gateway {g : G} {act : GatewayAct} (hen : s.GatewayEnabled g act)
    (hremove : act ≠ .removeStop) (hdrop : ∀ removed, act ≠ .dropStop removed) :
    Quiet s (s.stepGateway g act) := by
  have hsets {old : GatewayPc} (pc : GatewayPc) (heq : s.gateway g = old)
      (hfresh : pc.Fresh → old.Fresh) (hlistens : pc.Listens → old.Listens) :
      Quiet s (s.setGateway g pc) := by
    subst heq
    exact quiet_setGateway hfresh hlistens
  cases act with
  | start => exact hsets .starting hen id id
  | tryLock =>
    rw [State.stepGateway]
    split
    · have hset := hsets .locked hen id id
      exact ⟨rfl, hset.fresh, hset.listens⟩
    · exact ⟨rfl, (quiet_endGateway g).fresh, (quiet_endGateway g).listens⟩
  | removeStop => exact absurd rfl hremove
  | removeReady =>
    have hset := hsets .unready hen id id
    exact ⟨rfl, hset.fresh, hset.listens⟩
  | acquire => exact hsets .acquired hen id id
  | bind => exact hsets .bound hen id id
  | ready =>
    have hset := hsets .serving hen id id
    exact ⟨rfl, hset.fresh, hset.listens⟩
  | stopped => exact hsets .dropping hen.1 id id
  | quit =>
    rcases hen with hen | hen | hen
    · exact hsets .dropping hen id id
    · exact hsets .dropping hen id id
    · exact hsets .dropping hen id id
  | dropReady removed =>
    have hset := hsets .dropped hen id id
    exact ⟨rfl, hset.fresh, hset.listens⟩
  | dropStop removed => exact absurd rfl (hdrop removed)
  | close | exit => exact quiet_endGateway g

theorem quiet_launcher {l : L} {act : LauncherAct G} (hen : s.LauncherEnabled l act)
    (hwrite : act ≠ .write) : Quiet s (s.stepLauncher l act).1 := by
  have hsame {s' : State G L} (hstop : s'.stop = s.stop) (hgateway : s'.gateway = s.gateway) :
      Quiet s s' :=
    ⟨hstop, fun g hg => hgateway ▸ hg, fun g hg => hgateway ▸ hg⟩
  cases act with
  | launch | removeReady | poll | exited | exit => exact hsame rfl rfl
  | enter =>
    obtain ⟨action, hentering⟩ := hen
    simp only [State.stepLauncher, hentering]
    split
    · exact hsame rfl rfl
    · exact hsame rfl rfl
  | missing =>
    obtain ⟨-, why, hprobing⟩ := hen
    simp only [State.stepLauncher, hprobing]
    exact quiet_goes (goes_known false (.inl hprobing))
  | tryLock =>
    obtain ⟨-, why, hprobing⟩ := hen
    simp only [State.stepLauncher, hprobing]
    split
    · exact hsame rfl rfl
    · exact quiet_goes (goes_known true (.inl hprobing))
  | unlock =>
    obtain ⟨why, hprobed⟩ := hen
    simp only [State.stepLauncher, hprobed]
    have hgoes := quiet_goes (s := { s with lock := none }) (goes_known false (.inr hprobed))
    exact ⟨hgoes.stop, hgoes.fresh, hgoes.listens⟩
  | spawn child =>
    have hset : Quiet s (s.setGateway child .starting) :=
      quiet_setGateway (fun _ => hen.2 ▸ trivial) False.elim
    exact ⟨rfl, hset.fresh, hset.listens⟩
  | again =>
    obtain ⟨child, hwaiting, -⟩ := hen
    simp only [State.stepLauncher, hwaiting]
    exact hsame rfl rfl
  | look =>
    obtain ⟨child, hlooking⟩ := hen
    simp only [State.stepLauncher, hlooking]
    split
    · exact hsame rfl rfl
    · exact hsame rfl rfl
  | kill =>
    obtain ⟨child, hwaiting⟩ := hen
    simp only [State.stepLauncher, hwaiting]
    exact ⟨rfl, (quiet_endGateway child).fresh, (quiet_endGateway child).listens⟩
  | write => exact absurd rfl hwrite

omit [DecidableEq L] in
/-- A gateway that has removed `stop` is the only one that listens. -/
theorem Stops.removeStop (h : Stops t s) (hsafe : Safe s) {g : G} (hg : s.gateway g = .locked)
    {y : Event G L × Option Bool} (hy : y.1 = .gateway g .removeStop) :
    Stops (t ++ [y]) { s.setGateway g .unstopped with stop := false } := by
  have hnot : ¬ WritesStop y := by
    rintro ⟨l, hl⟩
    rw [hy] at hl
    cases hl
  have hne {g' : G} (hne : g' ≠ g) : ¬ (s.gateway g').Listens := fun hg' =>
    hne (hsafe.one hg'.holds (by rw [hg]; trivial))
  refine ⟨fun g' hg' x hx => ?_, fun g' hg' => ?_, fun g' hg' => ?_⟩
  · change ((s.setGateway g .unstopped).gateway g').Fresh at hg'
    rw [State.gateway_setGateway] at hg'
    split at hg'
    · exact hg'.elim
    · rename_i hdiff
      rcases List.mem_append.mp hx with hx | hx
      · exact h.fresh g' hg' x hx
      · rw [List.mem_singleton.mp hx, RemovesStop, hy]
        rintro heq
        cases heq
        exact hdiff rfl
  · change ((s.setGateway g .unstopped).gateway g').Listens at hg'
    rw [State.gateway_setGateway] at hg'
    split at hg'
    · rename_i heq
      exact ⟨y, by simp, heq ▸ hy⟩
    · exact absurd hg' (hne ‹_›)
  · change ((s.setGateway g .unstopped).gateway g').Listens at hg'
    rw [State.gateway_setGateway] at hg'
    split at hg'
    · rename_i heq
      subst heq
      refine iff_of_false nofun fun hlater => ?_
      rcases later_concat.mp hlater with ⟨before, x, after, rfl, hx, -⟩ | ⟨-, hwrites⟩
      · exact h.fresh g' (by rw [hg]; trivial) x (by simp) hx
      · exact hnot hwrites
    · exact absurd hg' (hne ‹_›)

omit [DecidableEq L] in
/-- A gateway that has ended its service is the last that listens. -/
theorem Stops.dropStop (h : Stops t s) (hsafe : Safe s) {g : G} (hg : s.gateway g = .dropped)
    {y : Event G L × Option Bool} {removed : Bool} (hy : y.1 = .gateway g (.dropStop removed))
    (stop : Bool) : Stops (t ++ [y]) { s.setGateway g .closing with stop := stop } := by
  have hne {g' : G} (hne : g' ≠ g) : ¬ (s.gateway g').Listens := fun hg' =>
    hne (hsafe.one hg'.holds (by rw [hg]; trivial))
  have hnone (g' : G) : ¬ ((s.setGateway g .closing).gateway g').Listens := by
    rw [State.gateway_setGateway]
    split
    · exact id
    · exact hne ‹_›
  refine ⟨fun g' hg' x hx => ?_, fun g' hg' => absurd hg' (hnone g'),
    fun g' hg' => absurd hg' (hnone g')⟩
  change ((s.setGateway g .closing).gateway g').Fresh at hg'
  rw [State.gateway_setGateway] at hg'
  split at hg'
  · exact hg'.elim
  · rcases List.mem_append.mp hx with hx | hx
    · exact h.fresh g' hg' x hx
    · rw [List.mem_singleton.mp hx, RemovesStop, hy]
      nofun

theorem stops_run (h : (machine G L).Run t s) : Stops t s := by
  refine h.invariant (fun s hs => ?_) fun t s e hrun hen hstops => ?_
  · obtain ⟨-, -, hgateway, -⟩ := hs
    refine ⟨fun g _ x hx => absurd hx List.not_mem_nil, fun g hg => ?_, fun g hg => ?_⟩
    · rw [hgateway g] at hg
      exact hg.elim
    · rw [hgateway g] at hg
      exact hg.elim
  have hsafe := safe_run hrun
  rcases e with ⟨g, act⟩ | ⟨l, act⟩
  · by_cases hremove : act = .removeStop
    · subst hremove
      exact hstops.removeStop hsafe hen rfl
    by_cases hdrop : ∃ removed, act = .dropStop removed
    · obtain ⟨removed, rfl⟩ := hdrop
      exact hstops.dropStop hsafe hen rfl _
    refine hstops.quiet (quiet_gateway hen hremove fun removed heq => hdrop ⟨removed, heq⟩) ?_ ?_
    · rintro g' heq
      cases heq
      exact hremove rfl
    · rintro ⟨l, heq⟩
      cases heq
  · by_cases hwrite : act = .write
    · subst hwrite
      have hwrites : WritesStop ((Event.launcher l .write : Event G L), (none : Option Bool)) :=
        ⟨l, rfl⟩
      refine ⟨fun g hg x hx => ?_, fun g hg => ?_, fun g hg => ?_⟩
      · rcases List.mem_append.mp hx with hx | hx
        · exact hstops.fresh g hg x hx
        · rw [List.mem_singleton.mp hx]
          nofun
      · obtain ⟨x, hx, hremoved⟩ := hstops.removed g hg
        exact ⟨x, List.mem_append_left _ hx, hremoved⟩
      · exact iff_of_true rfl (later_concat.mpr (.inr ⟨hstops.removed g hg, hwrites⟩))
    refine hstops.quiet (quiet_launcher hen hwrite) (fun g heq => by cases heq) ?_
    rintro ⟨l', heq⟩
    cases heq
    exact hwrite rfl

/-! ## Gateways that are ready -/

/-- A launcher removes an old `ready`. -/
def RemovesReady (l : L) (x : Event G L × Option Bool) : Prop :=
  x.1 = .launcher l .removeReady

/-- A gateway writes `ready`. -/
def WritesReady (x : Event G L × Option Bool) : Prop :=
  ∃ g, x.1 = .gateway g .ready

/-- What `ready` tells the launchers. -/
structure Readies (t : List (Event G L × Option Bool)) (s : State G L) : Prop where
  /-- one that waits has removed an old one -/
  removed : ∀ l, (s.launcher l).Awaits → ∃ x ∈ t, RemovesReady l x
  /-- what it finds was written since -/
  awaits : ∀ l, (s.launcher l).Awaits → s.ready = true → Later (RemovesReady l) WritesReady t

omit [DecidableEq G] [DecidableEq L] in
theorem Readies.quiet (h : Readies t s) (hready : s'.ready = true → s.ready = true)
    (hawaits : ∀ l, (s'.launcher l).Awaits → (s.launcher l).Awaits)
    {y : Event G L × Option Bool} : Readies (t ++ [y]) s' := by
  refine ⟨fun l hl => ?_, fun l hl hfound => ?_⟩
  · obtain ⟨x, hx, hremoved⟩ := h.removed l (hawaits l hl)
    exact ⟨x, List.mem_append_left _ hx, hremoved⟩
  · exact later_concat.mpr (.inl (h.awaits l (hawaits l hl) (hready hfound)))

theorem launcher_stepGateway (g : G) (act : GatewayAct) :
    (s.stepGateway g act).launcher = s.launcher := by
  cases act with
  | tryLock =>
    rw [State.stepGateway]
    split
    · rfl
    · rfl
  | _ => rfl

theorem ready_stepGateway {g : G} {act : GatewayAct} (hact : act ≠ .ready)
    (hready : (s.stepGateway g act).ready = true) : s.ready = true := by
  cases act with
  | tryLock =>
    rw [State.stepGateway] at hready
    split at hready
    · exact hready
    · exact hready
  | ready => exact absurd rfl hact
  | removeReady => cases hready
  | dropReady removed => exact (Bool.and_eq_true_iff.mp hready).1
  | _ => exact hready

omit [DecidableEq G] in
theorem awaits_setLauncher {l : L} {pc : LauncherPc G} (hpc : pc.Awaits → (s.launcher l).Awaits)
    (l' : L) (hl' : ((s.setLauncher l pc).launcher l').Awaits) : (s.launcher l').Awaits := by
  rw [State.launcher_setLauncher] at hl'
  split at hl'
  · rename_i heq
    exact heq ▸ hpc hl'
  · exact hl'

theorem awaits_goes {l : L} (hgoes : Goes s l s') (l' : L) (hl' : (s'.launcher l').Awaits) :
    (s.launcher l').Awaits := by
  cases hgoes with
  | ends => exact awaits_setLauncher (l := l) False.elim l' hl'
  | sets pc _ _ hawaits => exact awaits_setLauncher hawaits l' hl'

theorem ready_goes {l : L} (hgoes : Goes s l s') : s'.ready = s.ready := by
  cases hgoes with
  | ends => rfl
  | sets => rfl

/-- Apart from the one that removes it, no step of a launcher has to do with `ready`. -/
theorem readies_launcher {l : L} {act : LauncherAct G} (hen : s.LauncherEnabled l act)
    (hremove : act ≠ .removeReady) :
    (s.stepLauncher l act).1.ready = s.ready ∧
      ∀ l', ((s.stepLauncher l act).1.launcher l').Awaits → (s.launcher l').Awaits := by
  have hsets {old : LauncherPc G} (pc : LauncherPc G) (heq : s.launcher l = old)
      (hpc : pc.Awaits → old.Awaits) (l' : L)
      (hl' : ((s.setLauncher l pc).launcher l').Awaits) : (s.launcher l').Awaits := by
    subst heq
    exact awaits_setLauncher hpc l' hl'
  have hend (l' : L) (hl' : ((s.endLauncher l).launcher l').Awaits) : (s.launcher l').Awaits :=
    awaits_goes .ends l' hl'
  cases act with
  | launch action => exact ⟨rfl, hsets (.entering action) hen id⟩
  | enter =>
    obtain ⟨action, hentering⟩ := hen
    simp only [State.stepLauncher, hentering]
    split
    · exact ⟨rfl, hsets (.probing _) hentering id⟩
    · exact ⟨rfl, hend⟩
  | missing =>
    obtain ⟨-, why, hprobing⟩ := hen
    simp only [State.stepLauncher, hprobing]
    have hgoes := goes_known false (.inl hprobing)
    exact ⟨ready_goes hgoes, awaits_goes hgoes⟩
  | tryLock =>
    obtain ⟨-, why, hprobing⟩ := hen
    simp only [State.stepLauncher, hprobing]
    split
    · refine ⟨rfl, hsets (.probed why) hprobing fun hawaits => ?_⟩
      cases why with
      | start child => trivial
      | first action => exact hawaits.elim
      | stop => exact hawaits.elim
    · have hgoes := goes_known true (.inl hprobing)
      exact ⟨ready_goes hgoes, awaits_goes hgoes⟩
  | unlock =>
    obtain ⟨why, hprobed⟩ := hen
    simp only [State.stepLauncher, hprobed]
    have hgoes := goes_known (s := { s with lock := none }) false (.inr hprobed)
    have hready := ready_goes hgoes
    have hawaits := awaits_goes hgoes
    exact ⟨hready, hawaits⟩
  | removeReady => exact absurd rfl hremove
  | spawn child => exact ⟨rfl, hsets (.waiting child) hen.1 fun _ => trivial⟩
  | exited | exit => exact ⟨rfl, hend⟩
  | again =>
    obtain ⟨child, hwaiting, -⟩ := hen
    simp only [State.stepLauncher, hwaiting]
    exact ⟨rfl, hsets (.probing (.start child)) hwaiting fun _ => trivial⟩
  | look =>
    obtain ⟨child, hlooking⟩ := hen
    simp only [State.stepLauncher, hlooking]
    split
    · exact ⟨rfl, hend⟩
    · exact ⟨rfl, hsets (.waiting child) hlooking fun _ => trivial⟩
  | kill =>
    obtain ⟨child, hwaiting⟩ := hen
    simp only [State.stepLauncher, hwaiting]
    exact ⟨rfl, hend⟩
  | write => exact ⟨rfl, hsets .polling hen id⟩
  | poll => exact ⟨rfl, hsets (.probing .stop) hen id⟩

theorem readies_run (h : (machine G L).Run t s) : Readies t s := by
  refine h.invariant (fun s hs => ?_) fun t s e _ hen hreadies => ?_
  · obtain ⟨-, -, -, hlauncher⟩ := hs
    refine ⟨fun l hl => ?_, fun l hl => ?_⟩
    · rw [hlauncher l] at hl
      exact hl.elim
    · rw [hlauncher l] at hl
      exact hl.elim
  rcases e with ⟨g, act⟩ | ⟨l, act⟩
  · have hsame (l : L) (hl : ((s.stepGateway g act).launcher l).Awaits) :
        (s.launcher l).Awaits := by
      rwa [launcher_stepGateway] at hl
    by_cases hready : act = .ready
    · subst hready
      refine ⟨fun l hl => ?_, fun l hl _ => ?_⟩
      · obtain ⟨x, hx, hremoved⟩ := hreadies.removed l (hsame l hl)
        exact ⟨x, List.mem_append_left _ hx, hremoved⟩
      · exact later_concat.mpr (.inr ⟨hreadies.removed l (hsame l hl), g, rfl⟩)
    exact hreadies.quiet (ready_stepGateway hready) hsame
  · by_cases hremove : act = .removeReady
    · subst hremove
      refine ⟨fun l' hl' => ?_, fun _ _ => nofun⟩
      change ((s.setLauncher l .spawning).launcher l').Awaits at hl'
      rw [State.launcher_setLauncher] at hl'
      split at hl'
      · rename_i heq
        exact ⟨_, List.mem_append_right _ List.mem_cons_self, heq ▸ rfl⟩
      · obtain ⟨x, hx, hremoved⟩ := hreadies.removed l' hl'
        exact ⟨x, List.mem_append_left _ hx, hremoved⟩
    obtain ⟨hready, hawaits⟩ := readies_launcher hen hremove
    exact hreadies.quiet (fun hfound => hready ▸ hfound) hawaits

/-! ## What the launchers tell -/

/-- What the launcher was started for. -/
def LauncherPc.action : LauncherPc G → Option Action
  | .entering action | .probing (.first action) | .probed (.first action) => some action
  | .removing | .spawning | .waiting _ | .looking _ => some .start
  | .probing (.start _) | .probed (.start _) => some .start
  | .writing | .polling | .probing .stop | .probed .stop => some .stop
  | .off | .gone => none

/-- What is the case when a launcher has no error to report. -/
def Action.Done (t : List (Event G L × Option Bool)) (s : State G L) (l : L) : Action → Prop
  | .start => (∃ g, (s.gateway g).Holds) ∨ Later (RemovesReady l) WritesReady t
  | .stop => ∀ g, ¬ (s.gateway g).Holds
  | .status => ∃ g, (s.gateway g).Holds

theorem known_done {l : L} {running : Bool} {why : Probe G}
    (hresult : (s.known l running why).2 = some true) :
    (running = true ∧ (why = .first .start ∨ why = .first .status)) ∨
      (running = false ∧ (why = .first .stop ∨ why = .stop)) := by
  rcases why with ⟨- | - | -⟩ | child | -
  case first.start =>
    cases running
    · cases hresult
    · exact .inl ⟨rfl, .inl rfl⟩
  case first.status =>
    cases running
    · cases hresult
    · exact .inl ⟨rfl, .inr rfl⟩
  case first.stop =>
    cases running
    · exact .inr ⟨rfl, .inl rfl⟩
    · cases hresult
  case start =>
    cases running
    · cases hresult
    · cases hresult
  case stop =>
    cases running
    · exact .inr ⟨rfl, .inr rfl⟩
    · cases hresult

/-- A launcher that ends without an error has done what it was started for. -/
theorem done_of_result (hsafe : Safe s) (hreadies : Readies t s) {l : L} {act : LauncherAct G}
    (hen : s.LauncherEnabled l act) (hresult : (s.stepLauncher l act).2 = some true) :
    ∃ action, (s.launcher l).action = some action ∧ action.Done t s l := by
  have hstop {why : Probe G} (hpc : s.launcher l = .probing why ∨ s.launcher l = .probed why)
      (hnone : ∀ g, ¬ (s.gateway g).Holds) (hwhy : why = .first .stop ∨ why = .stop) :
      ∃ action, (s.launcher l).action = some action ∧ action.Done t s l := by
    refine ⟨.stop, ?_, hnone⟩
    rcases hpc with hpc | hpc
    · rw [hpc]
      rcases hwhy with rfl | rfl <;> rfl
    · rw [hpc]
      rcases hwhy with rfl | rfl <;> rfl
  cases act with
  | missing =>
    obtain ⟨hfile, why, hprobing⟩ := hen
    simp only [State.stepLauncher, hprobing] at hresult
    rcases known_done hresult with ⟨hrunning, -⟩ | ⟨-, hwhy⟩
    · cases hrunning
    · exact hstop (.inl hprobing) (hsafe.free (hsafe.file hfile)).1 hwhy
  | tryLock =>
    obtain ⟨-, why, hprobing⟩ := hen
    simp only [State.stepLauncher, hprobing] at hresult
    split at hresult
    · cases hresult
    · rename_i holder hlock
      have hg := hsafe.busy (l := l) (by rw [hprobing]; trivial) (by rw [hprobing]; exact id)
        hlock
      rcases known_done hresult with ⟨-, hwhy⟩ | ⟨hrunning, -⟩
      · rw [hprobing]
        rcases hwhy with rfl | rfl
        · exact ⟨.start, rfl, .inl hg⟩
        · exact ⟨.status, rfl, hg⟩
      · cases hrunning
  | unlock =>
    obtain ⟨why, hprobed⟩ := hen
    simp only [State.stepLauncher, hprobed] at hresult
    have hlock := (hsafe.probed l).mp (by rw [hprobed]; trivial)
    rcases known_done hresult with ⟨hrunning, -⟩ | ⟨-, hwhy⟩
    · cases hrunning
    · refine hstop (.inr hprobed) (fun g hg => ?_) hwhy
      rw [hsafe.gateway g, hlock] at hg
      cases hg
  | look =>
    obtain ⟨child, hlooking⟩ := hen
    simp only [State.stepLauncher, hlooking] at hresult
    split at hresult
    · rename_i hready
      rw [hlooking]
      exact ⟨.start, rfl, .inr (hreadies.awaits l (by rw [hlooking]; trivial) hready)⟩
    · cases hresult
  | enter =>
    obtain ⟨action, hentering⟩ := hen
    simp only [State.stepLauncher, hentering] at hresult
    split at hresult
    · cases hresult
    · cases hresult
  | again =>
    obtain ⟨child, hwaiting, -⟩ := hen
    simp only [State.stepLauncher, hwaiting] at hresult
    cases hresult
  | kill =>
    obtain ⟨child, hwaiting⟩ := hen
    simp only [State.stepLauncher, hwaiting] at hresult
    cases hresult
  | launch | removeReady | spawn | exited | exit | write | poll => cases hresult

/-- In every run of gateways and launchers, whatever files it began with and wherever they are
killed: one gateway at most has its state directory, and one launcher at most acts on it. A request
to stop is there for a gateway exactly if it was made after this gateway had removed an old one, so
no gateway stops for a request that was left to an earlier one. A launcher that ends without an
error has started a gateway that became ready, or found one; it has seen that none is left, if it
was to stop it. -/
theorem lifecycle_safe {G L : Type} [DecidableEq G] [DecidableEq L] {s : State G L}
    {t : List (Event G L × Option Bool)} (h : (machine G L).Run t s) :
    (∀ g g', (s.gateway g).Holds → (s.gateway g').Holds → g = g') ∧
    (∀ l l', (s.launcher l).Acts → (s.launcher l').Acts → l = l') ∧
    (∀ g, (s.gateway g).Listens → (s.stop = true ↔ Later (RemovesStop g) WritesStop t)) ∧
    (∀ before after g out, t = before ++ (.gateway g .stopped, out) :: after →
      Later (RemovesStop g) WritesStop before) ∧
    (∀ before after l act, t = before ++ (.launcher l act, some true) :: after →
      ∃ s' action, (machine G L).Run before s' ∧ (s'.launcher l).action = some action ∧
        action.Done before s' l) := by
  have hsafe := safe_run h
  refine ⟨fun g g' => hsafe.one, fun l l' => hsafe.alone, (stops_run h).listens,
    fun before after g out heq => ?_, fun before after l act heq => ?_⟩
  · obtain ⟨s', hrun, ⟨hserving, hstop⟩, -⟩ := h.stepAt heq
    exact ((stops_run hrun).listens g (by rw [hserving]; trivial)).mp hstop
  · obtain ⟨s', hrun, hen, hresult⟩ := h.stepAt heq
    obtain ⟨action, haction, hdone⟩ :=
      done_of_result (safe_run hrun) (readies_run hrun) hen hresult.symm
    exact ⟨s', action, hrun, haction, hdone⟩

namespace Sample

/-- A state directory that a gateway left with both files. -/
def left : State Unit Bool where
  lockFile := true
  lock := none
  launcherLock := none
  stop := true
  ready := true
  gateway _ := .off
  launcher _ := .off

/-- A launcher starts a gateway, and waits until it is ready. -/
def started : List (Event Unit Bool) :=
  [.launcher true (.launch .start), .launcher true .enter, .launcher true .tryLock,
    .launcher true .unlock, .launcher true .removeReady, .launcher true (.spawn ()),
    .gateway () .tryLock, .gateway () .removeStop, .gateway () .removeReady, .gateway () .acquire,
    .gateway () .bind, .gateway () .ready, .launcher true .again, .launcher true .tryLock,
    .launcher true .look]

/-- Another one asks it to stop. -/
def asked : List (Event Unit Bool) :=
  [.launcher false (.launch .stop), .launcher false .enter, .launcher false .tryLock,
    .launcher false .write]

end Sample

open Sample in
/-- A launcher starts a gateway, and another stops it. -/
theorem lifecycle_safe_sample :
    let t := ((machine Unit Bool).exec left (started ++ asked)).1
    Later (RemovesStop ()) WritesStop t := by
  have hstart : (machine Unit Bool).Run [] left := .start ⟨rfl, rfl, fun _ => rfl, fun _ => rfl⟩
  let events := started ++ asked ++ [Event.gateway () GatewayAct.stopped]
  have hfollows : (machine Unit Bool).Follows [] left events :=
    ⟨rfl, ⟨_, rfl⟩, ⟨rfl, _, rfl⟩, ⟨_, rfl⟩, rfl, ⟨rfl, rfl⟩, rfl, rfl, rfl, rfl, rfl, rfl,
      ⟨(), rfl, nofun⟩, ⟨rfl, _, rfl⟩, ⟨(), rfl⟩, rfl, ⟨_, rfl⟩, ⟨rfl, _, rfl⟩, rfl, ⟨rfl, rfl⟩,
      trivial⟩
  have hrun := hstart.follows hfollows
  rw [List.nil_append, show events = started ++ asked ++ [_] from rfl, Machine.exec_concat] at hrun
  exact (lifecycle_safe hrun).2.2.2.1 _ [] () none rfl

end Background

end ContentDiscovery
