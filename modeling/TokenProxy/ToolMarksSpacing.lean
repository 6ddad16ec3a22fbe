/-
  TokenProxy/ToolMarksSpacing.lean
  ================================
  **How soon a tool may be hidden again.**

  A pass looks first and marks later, so two passes at once could mark a tool twice in a row.  Only
  the lock stands against it, and it is gone after an hour, or when a handler deletes it: that of a
  pass whose own lock was never set, or is deleted already.  As long as every pass ends within the
  hour and no command on the lock raises after it had a result, one pass is in flight at a time,
  and whatever it finds is still due when it marks.
-/
import TokenProxy.ToolMarks
import Mathlib.Data.Fintype.Basic

namespace TokenProxy.ToolMarks

open Execution ExpiringKeys

/-! ## 1. When a tool may be hidden again -/

/-- The tool was offered, when it had last been hidden, for the whole window. -/
def Due (window : ℚ) (log : List Event) (name : String) (c : ℚ) : Prop :=
  ∃ f, .offered name f ∈ log ∧ f + window ≤ c ∧ ∀ p, .hidden name p ∈ log → p ≤ f

/-- Whoever is hidden twice was offered for the window in between. -/
def Spaced (window : ℚ) (log : List Event) : Prop :=
  ∀ name p q, .hidden name p ∈ log → .hidden name q ∈ log → p < q →
    ∃ f, .offered name f ∈ log ∧ p ≤ f ∧ f + window ≤ q

structure State.Orderly {τ : Type} (cfg : Settings) (s : State τ) : Prop where
  sound : s.Sound cfg
  spaced : Spaced cfg.window s.log
  due : ∀ i, ∀ pass ∈ s.passes i, pass.phase = .looking → ∀ name ∈ pass.inactive,
    Due cfg.window s.log name s.clock
  /-- the lock is that of the pass in flight -/
  held : ∀ i, ∀ pass ∈ s.passes i, s.clock < pass.begun + lockSeconds ∧
    s.lock () = some ⟨pass.begun, some (pass.begun + lockSeconds)⟩
  single : ∀ i j, (s.passes i).isSome → (s.passes j).isSome → i = j

/-- No pass runs for the hour that its lock is there, the lock's `SET` does not raise, and its
    `DEL` does not once it is applied. -/
def WithinLock {τ : Type} (s : State τ) : Label τ → Prop
  | .tick d => ∀ i, ∀ pass ∈ s.passes i, s.clock + d < pass.begun + lockSeconds
  | .beginRaises _ _ => False
  | .finish _ answered => answered = true
  | _ => True

variable {τ : Type} {cfg : Settings} {s s' : State τ} {i : τ} {pass : Pass}

/-! ## 2. The log -/

section Log

variable {window c : ℚ} {log : List Event} {name : String} {e : Event}

def Event.isHidden : Event → Bool
  | .hidden _ _ => true
  | _ => false

theorem Due.cons (h : Due window log name c) (hother : e.isHidden = false) :
    Due window (e :: log) name c := by
  obtain ⟨f, hf, hle, hlast⟩ := h
  refine ⟨f, List.mem_cons_of_mem e hf, hle, ?_⟩
  intro p hp
  rcases List.mem_cons.mp hp with rfl | hp
  · cases hother
  · exact hlast p hp

theorem Due.later {c' : ℚ} (h : Due window log name c) (hle : c ≤ c') :
    Due window log name c' := by
  obtain ⟨f, hf, hwindow, hlast⟩ := h
  exact ⟨f, hf, hwindow.trans hle, hlast⟩

theorem Spaced.cons (h : Spaced window log) (hother : e.isHidden = false) :
    Spaced window (e :: log) := by
  intro name p q hp hq hlt
  rcases List.mem_cons.mp hp with rfl | hp
  · cases hother
  rcases List.mem_cons.mp hq with rfl | hq
  · cases hother
  obtain ⟨f, hf, hle⟩ := h name p q hp hq hlt
  exact ⟨f, List.mem_cons_of_mem e hf, hle⟩

/-- A tool that is due is hidden now, at the latest time in the log. -/
theorem Spaced.hide {now : ℚ} (h : Spaced window log) (hpast : ∀ e ∈ log, e.time ≤ now)
    (hdue : ∃ f, .offered name f ∈ log ∧ f + window ≤ now ∧
      ∀ p, .hidden name p ∈ log → p ≤ f ∨ p = now) :
    Spaced window (.hidden name now :: log) := by
  intro other p q hp hq hlt
  have hq' : q ≤ now := by
    rcases List.mem_cons.mp hq with heq | hq
    · cases heq
      exact le_refl now
    · exact hpast _ hq
  rcases List.mem_cons.mp hp with heq | hp
  · cases heq
    exact absurd hlt hq'.not_gt
  rcases List.mem_cons.mp hq with heq | hq
  · cases heq
    obtain ⟨f, hf, hwindow, hlast⟩ := hdue
    rcases hlast p hp with hle | rfl
    · exact ⟨f, List.mem_cons_of_mem _ hf, hle, hwindow⟩
    · exact absurd hlt (lt_irrefl p)
  · obtain ⟨f, hf, hle⟩ := h other p q hp hq hlt
    exact ⟨f, List.mem_cons_of_mem _ hf, hle⟩

end Log

theorem State.Sound.due (h : s.Sound cfg) (hprune : shouldPruneTool cfg s name = true) :
    Due cfg.window s.log name s.clock := by
  obtain ⟨offered, first, called, hget, hfirst, -, -⟩ := pruneCandidate_eq_true hprune
  have hsound : UsageSound s.log name ⟨some offered, some first, called⟩ := by
    simpa [hget] using h.usage_getD name
  exact ⟨first, hsound.firstSeen first rfl, hfirst, hsound.hidden first rfl⟩

/-- While a pass sets its marks.  A registry may list a tool twice: it is then hidden twice, at the
    same time. -/
structure State.Marking (cfg : Settings) (now : ℚ) (names : List String) (s : State τ) : Prop where
  clock : s.clock = now
  past : ∀ e ∈ s.log, e.time ≤ now
  spaced : Spaced cfg.window s.log
  due : ∀ name ∈ names, ∃ f, .offered name f ∈ s.log ∧ f + cfg.window ≤ now ∧
    ∀ p, .hidden name p ∈ s.log → p ≤ f ∨ p = now

theorem State.Marking.hide {now : ℚ} {names : List String} (h : s.Marking cfg now names)
    {name : String} (hname : name ∈ names) : (s.hide cfg name).Marking cfg now names where
  clock := h.clock
  past e he := by
    rcases List.mem_cons.mp he with rfl | he
    · exact h.clock.le
    · exact h.past e he
  spaced := by
    simp only [State.hide, h.clock]
    exact h.spaced.hide h.past (h.due name hname)
  due other hother := by
    obtain ⟨f, hf, hwindow, hlast⟩ := h.due other hother
    refine ⟨f, List.mem_cons_of_mem _ hf, hwindow, ?_⟩
    intro p hp
    rcases List.mem_cons.mp hp with heq | hp
    · cases heq
      exact Or.inr h.clock
    · exact hlast p hp

theorem State.Sound.spaced_conclude (h : s.Sound cfg) (hspaced : Spaced cfg.window s.log)
    (hdue : ∀ name ∈ pass.inactive, Due cfg.window s.log name s.clock) :
    Spaced cfg.window (s.conclude cfg pass).log := by
  rw [State.conclude]
  split
  · exact hspaced
  · have hbegun : s.Marking cfg s.clock pass.inactive := by
      refine ⟨rfl, h.past, hspaced, ?_⟩
      intro name hname
      obtain ⟨f, hf, hwindow, hlast⟩ := hdue name hname
      exact ⟨f, hf, hwindow, fun p hp => Or.inl (hlast p hp)⟩
    exact (List.foldlRecOn pass.inactive (State.hide cfg) hbegun
      fun _ hs _ hname => hs.hide hname).spaced

theorem held_conclude (s : State τ) (pass : Pass) :
    (s.conclude cfg pass).clock = s.clock ∧ (s.conclude cfg pass).lock = s.lock := by
  rw [State.conclude]
  split
  · exact ⟨rfl, rfl⟩
  · exact List.foldlRecOn (motive := fun s' : State τ => s'.clock = s.clock ∧ s'.lock = s.lock)
      pass.inactive (State.hide cfg) ⟨rfl, rfl⟩ fun _ hs _ _ => hs

/-! ## 3. Every step keeps it -/

/-- Something else is logged. -/
theorem State.Orderly.logged (h : s.Orderly cfg) {e : Event} (hsound : s'.Sound cfg)
    (hother : e.isHidden = false) (hclock : s'.clock = s.clock) (hlog : s'.log = e :: s.log)
    (hpasses : s'.passes = s.passes) (hlock : s'.lock = s.lock) : s'.Orderly cfg where
  sound := hsound
  spaced := hlog ▸ h.spaced.cons hother
  due i pass hpass hphase name hname := by
    rw [hclock, hlog]
    exact (h.due i pass (hpasses ▸ hpass) hphase name hname).cons hother
  held i pass hpass := by
    rw [hclock, hlock]
    exact h.held i pass (hpasses ▸ hpass)
  single i j := hpasses ▸ h.single i j

theorem State.Orderly.offer (h : s.Orderly cfg) (name : String) :
    (s.offer cfg name).Orderly cfg :=
  h.logged (h.sound.offer name) rfl rfl rfl rfl rfl

theorem State.Orderly.call (h : s.Orderly cfg) (name : String) : (s.call cfg name).Orderly cfg :=
  h.logged (h.sound.call name) rfl rfl rfl rfl rfl

theorem State.Orderly.look (h : s.Orderly cfg) (name : String) (answered : Bool) :
    (s.look name answered).Orderly cfg := by
  cases answered with
  | false => exact h
  | true => exact h.logged (h.sound.look name true) rfl rfl rfl rfl rfl

/-- The only pass in flight moves on, or is over. -/
theorem State.Orderly.moved [DecidableEq τ] (h : s.Orderly cfg) (hpass : s.passes i = some pass)
    {next : Option Pass} (hsound : s'.Sound cfg) (hspaced : Spaced cfg.window s'.log)
    (hpasses : s'.passes = Function.update s.passes i next)
    (hdue : ∀ pass' ∈ next, pass'.phase = .looking → ∀ name ∈ pass'.inactive,
      Due cfg.window s'.log name s'.clock)
    (hheld : ∀ pass' ∈ next, s'.clock < pass'.begun + lockSeconds ∧
      s'.lock () = some ⟨pass'.begun, some (pass'.begun + lockSeconds)⟩) : s'.Orderly cfg := by
  have honly : ∀ j, ∀ pass' ∈ s'.passes j, j = i ∧ pass' ∈ next := by
    intro j pass' hpass'
    rw [hpasses] at hpass'
    by_cases hj : j = i
    · subst hj
      rw [Function.update_self] at hpass'
      exact ⟨rfl, hpass'⟩
    · rw [Function.update_of_ne hj] at hpass'
      exact absurd (h.single j i (Option.isSome_of_mem hpass') (by simp [hpass])) hj
  constructor
  · exact hsound
  · exact hspaced
  · intro j pass' hpass'
    exact hdue pass' (honly j pass' hpass').2
  · intro j pass' hpass'
    exact hheld pass' (honly j pass' hpass').2
  · intro j k hj hk
    obtain ⟨pass', hpass'⟩ := Option.isSome_iff_exists.mp hj
    obtain ⟨other, hother⟩ := Option.isSome_iff_exists.mp hk
    rw [(honly j pass' hpass').1, (honly k other hother).1]

/-- A pass that finds no lock is alone. -/
theorem State.Orderly.passes_of_unlocked (h : s.Orderly cfg)
    (hlock : (s.lock.get s.clock ()).isSome = false) (i : τ) : s.passes i = none := by
  by_contra hsome
  obtain ⟨pass, hpass⟩ := Option.ne_none_iff_exists'.mp hsome
  obtain ⟨hhour, hheld⟩ := h.held i pass hpass
  rw [get_of_eq_some hheld, if_pos hhour] at hlock
  cases hlock

theorem State.Orderly.begun [DecidableEq τ] (h : s.Orderly cfg) {dryRun : Bool}
    {registryTools : List String}
    (hsound : (s.acquire.withPass i
      (some ⟨dryRun, registryTools, [], s.clock, .looking⟩)).Sound cfg)
    (halone : ∀ j, s.passes j = none) :
    (s.acquire.withPass i
      (some ⟨dryRun, registryTools, [], s.clock, .looking⟩)).Orderly cfg := by
  have hlock : s.lock.set s.clock () s.clock lockSeconds () =
      some ⟨s.clock, some (s.clock + lockSeconds)⟩ := set_self
  have hmine : ∀ j, ∀ pass ∈ Function.update s.passes i
      (some ⟨dryRun, registryTools, [], s.clock, .looking⟩) j,
      j = i ∧ pass = ⟨dryRun, registryTools, [], s.clock, .looking⟩ := by
    intro j pass hpass
    by_cases hj : j = i
    · subst hj
      exact ⟨rfl, by simpa using hpass.symm⟩
    · simp [hj, halone j] at hpass
  constructor
  · exact hsound
  · exact h.spaced
  · intro j pass hpass _ name hname
    rw [(hmine j pass hpass).2] at hname
    simp at hname
  · intro j pass hpass
    rw [(hmine j pass hpass).2]
    exact ⟨by simp [State.withPass, State.acquire, lockSeconds], hlock⟩
  · intro j k hj hk
    obtain ⟨pass, hpass⟩ := Option.isSome_iff_exists.mp hj
    obtain ⟨other, hother⟩ := Option.isSome_iff_exists.mp hk
    rw [(hmine j pass hpass).1, (hmine k other hother).1]

/-- What a pass finds at a look is due, as what it found before. -/
theorem State.Orderly.found [DecidableEq τ] (h : s.Orderly cfg) (hpass : s.passes i = some pass)
    (hphase : pass.phase = .looking) {name : String} {rest : List String} {answered : Bool} :
    ∀ tool ∈ (pass.found cfg s name rest answered).inactive,
      Due cfg.window (s.look name answered).log tool s.clock := by
  intro tool htool
  have hold : tool ∈ pass.inactive → Due cfg.window (s.look name answered).log tool s.clock :=
    fun hmem => (h.look name answered).due i pass hpass hphase tool hmem
  cases hanswered : answered && shouldPruneTool cfg s name with
  | false =>
    rw [Pass.found, hanswered] at htool
    exact hold htool
  | true =>
    rw [Pass.found, hanswered] at htool
    obtain ⟨rfl, hprune⟩ := Bool.and_eq_true_iff.mp hanswered
    rcases List.mem_append.mp htool with hmem | hmem
    · exact hold hmem
    · obtain rfl := List.mem_singleton.mp hmem
      exact (h.sound.due hprune).cons rfl

theorem step_orderly [DecidableEq τ] {label : Label τ} (h : s.Orderly cfg)
    (hwithin : WithinLock s label) (hstep : step cfg s label = some s') : s'.Orderly cfg := by
  have hsound := step_sound h.sound hstep
  cases label with
  | tick d =>
    obtain ⟨hd, rfl⟩ := by simpa [step] using hstep
    constructor
    · exact hsound
    · exact h.spaced
    · intro i pass hpass hphase name hname
      exact (h.due i pass hpass hphase name hname).later (by dsimp only; linarith)
    · intro i pass hpass
      exact ⟨hwithin i pass hpass, (h.held i pass hpass).2⟩
    · exact h.single
  | offer toolNames =>
    obtain rfl := Option.some.inj hstep
    exact List.foldlRecOn toolNames _ h fun _ hs name _ => hs.offer name
  | answer offered names =>
    obtain rfl := Option.some.inj hstep
    exact List.foldlRecOn _ _ h fun _ hs name _ => hs.call name
  | named toolNames =>
    obtain rfl := Option.some.inj hstep
    exact ⟨hsound, h.spaced, h.due, h.held, h.single⟩
  | begin i dryRun registryTools =>
    simp only [step] at hstep
    split at hstep
    · cases hstep
    · split at hstep
      · obtain rfl := Option.some.inj hstep
        exact h
      · rename_i hlock
        obtain rfl := Option.some.inj hstep
        exact h.begun hsound (h.passes_of_unlocked (Bool.eq_false_iff.mpr hlock))
  | beginRaises i applied => exact absurd hwithin id
  | check i answered =>
    simp only [step] at hstep
    split at hstep
    · rename_i pass hpass
      split at hstep
      · rename_i name rest hphase htools
        obtain rfl := Option.some.inj hstep
        refine (h.look name answered).moved hpass hsound (h.look name answered).spaced rfl ?_ ?_
        · rintro pass' ⟨⟩ -
          exact h.found hpass hphase
        · rintro pass' ⟨⟩
          exact h.held i pass hpass
      · cases hstep
    · cases hstep
  | conclude i =>
    obtain ⟨pass, hpass, rfl⟩ := Option.map_eq_some_iff.mp hstep
    obtain ⟨hpass, hready⟩ := Option.filter_eq_some_iff.mp hpass
    have hphase := of_decide_eq_true (Bool.and_eq_true_iff.mp hready).1
    have hkept : (s.conclude cfg pass).clock = s.clock ∧
        (s.conclude cfg pass).lock = s.lock := held_conclude s pass
    have hpasses : ((s.conclude cfg pass).withPass i (some { pass with phase := .marked })).passes =
        Function.update s.passes i (some { pass with phase := .marked }) := by
      rw [State.withPass, passes_conclude]
    refine h.moved hpass hsound
      (h.sound.spaced_conclude h.spaced (h.due i pass hpass hphase)) hpasses ?_ ?_
    · rintro pass' ⟨⟩ hlooking
      cases hlooking
    · rintro pass' ⟨⟩
      rw [State.withPass, hkept.1, hkept.2]
      exact h.held i pass hpass
  | finish i answered =>
    obtain ⟨pass, hpass, rfl⟩ := Option.map_eq_some_iff.mp hstep
    obtain rfl : answered = true := hwithin
    exact h.moved (Option.filter_eq_some_iff.mp hpass).1 hsound h.spaced rfl (by simp) (by simp)
  | fail i =>
    obtain ⟨pass, hpass, rfl⟩ := Option.map_eq_some_iff.mp hstep
    have hpass := (Option.filter_eq_some_iff.mp hpass).1
    refine h.moved hpass hsound h.spaced rfl ?_ ?_
    · rintro pass' ⟨⟩ hlooking
      cases hlooking
    · rintro pass' ⟨⟩
      exact h.held i pass hpass
  | release i deleted =>
    obtain ⟨pass, hpass, rfl⟩ := Option.map_eq_some_iff.mp hstep
    exact h.moved (Option.filter_eq_some_iff.mp hpass).1 hsound h.spaced rfl (by simp) (by simp)

theorem State.orderly_start (clock : ℚ) : (State.start τ clock).Orderly cfg where
  sound := State.sound_start clock
  spaced _ _ _ h := by simp [State.start] at h
  due _ _ h := by simp [State.start] at h
  held _ _ h := by simp [State.start] at h
  single _ _ h := by simp [State.start] at h

def WithinLock.decidable (s : State Unit) : ∀ label, Decidable (WithinLock s label)
  | .tick d => inferInstanceAs (Decidable (∀ i, ∀ pass ∈ s.passes i,
      s.clock + d < pass.begun + lockSeconds))
  | .beginRaises _ _ => isFalse id
  | .finish _ answered => inferInstanceAs (Decidable (answered = true))
  | .offer _ | .answer _ _ | .named _ | .begin _ _ _ | .check _ _ | .conclude _ | .fail _ |
    .release _ _ => isTrue trivial

instance (s : State Unit) (label : Label Unit) : Decidable (WithinLock s label) :=
  WithinLock.decidable s label

/-- A tool is offered again and again and never called; two passes look, a day apart. -/
def neverCalled : List (Label Unit) :=
  let day := [.offer ["search"], .tick 86400, .offer ["search"]]
  let pass := [.begin () false ["search"], .tick 5, .check () true, .conclude (), .tick 1,
    .finish () true]
  day ++ pass ++ [.tick 86400] ++ day ++ pass

end TokenProxy.ToolMarks
