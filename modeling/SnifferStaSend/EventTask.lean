import Mathlib.Data.List.Induction

/-!
# Event tasks under interrupts

A task takes events one at a time and handles each by a list of statements; between any two
statements an interrupt may run. A run takes the labels of a list in turn and fails with the
first one that is not enabled.
-/

namespace CLib

section Runs

variable {σ ℓ : Type*} (step : σ → ℓ → Option σ)

def run (s : σ) (ls : List ℓ) : Option σ := ls.foldlM step s

@[simp] theorem run_nil (s : σ) : run step s [] = some s := rfl

theorem run_cons (s : σ) (l : ℓ) (ls : List ℓ) :
    run step s (l :: ls) = (step s l).bind (fun t => run step t ls) := rfl

theorem run_append_eq_some {s u : σ} {ls ms : List ℓ} :
    run step s (ls ++ ms) = some u ↔ ∃ t, run step s ls = some t ∧ run step t ms = some u := by
  rw [run, List.foldlM_append]
  exact Option.bind_eq_some_iff

theorem run_append_singleton_eq_some {s u : σ} {ls : List ℓ} {l : ℓ} :
    run step s (ls ++ [l]) = some u ↔ ∃ t, run step s ls = some t ∧ step t l = some u := by
  simp only [run_append_eq_some, run_cons, run_nil, Option.bind_fun_some]

theorem run_of_fixed {s : σ} {ls : List ℓ} (h : ∀ l ∈ ls, step s l = some s) :
    run step s ls = some s := by
  induction ls with
  | nil => rfl
  | cons l ls ih =>
      rw [run_cons, h l List.mem_cons_self]
      exact ih (fun l' hl' => h l' (List.mem_cons_of_mem l hl'))

/-- What every step keeps, the labels taken so far included, holds after every run. -/
theorem run_invariant {P : List ℓ → σ → Prop}
    (hstep : ∀ ls s l t, P ls s → step s l = some t → P (ls ++ [l]) t)
    {s t : σ} {ls : List ℓ} (hs : P [] s) (hrun : run step s ls = some t) : P ls t := by
  induction ls using List.reverseRecOn generalizing t with
  | nil => exact Option.some.inj hrun ▸ hs
  | append_singleton ls l ih =>
      obtain ⟨u, hu, hlast⟩ := (run_append_singleton_eq_some step).mp hrun
      exact hstep ls u l t (ih hu) hlast

/-- Where another machine answers each step by a run that restores `R`, it answers every run. -/
theorem run_simulates {τ μ : Type*} (step' : τ → μ → Option τ) {R : σ → τ → Prop}
    (hstep : ∀ s a l t, R s a → step s l = some t → ∃ ms b, run step' a ms = some b ∧ R t b)
    {s t : σ} {a : τ} {ls : List ℓ} (hs : R s a) (hrun : run step s ls = some t) :
    ∃ ms b, run step' a ms = some b ∧ R t b := by
  induction ls using List.reverseRecOn generalizing t with
  | nil => exact ⟨[], a, rfl, Option.some.inj hrun ▸ hs⟩
  | append_singleton ls l ih =>
      obtain ⟨u, hu, hlast⟩ := (run_append_singleton_eq_some step).mp hrun
      obtain ⟨ms, b, hms, hb⟩ := ih hu
      obtain ⟨ns, c, hns, hc⟩ := hstep u b l t hb hlast
      exact ⟨ms ++ ns, c, (run_append_eq_some step').mpr ⟨b, hms, hns⟩, hc⟩

end Runs

/-- `handler s e` are the statements that handle `e`; a halted task does nothing any more. -/
structure EventTask (σ stmt ev irq : Type*) where
  handler : σ → ev → List stmt
  exec : σ → stmt → σ
  interrupt : σ → irq → σ
  halted : σ → Bool

namespace EventTask

/-- A state and what is left of the running handler. -/
structure Config (σ stmt : Type*) where
  state : σ
  pending : List stmt

inductive Label (ev irq : Type*)
  | event (e : ev)
  | advance
  | interrupt (x : irq)

variable {σ stmt ev irq : Type*} (t : EventTask σ stmt ev irq)

def Label.event? : Label ev irq → Option ev
  | .event e => some e
  | _ => none

def Label.interrupt? : Label ev irq → Option irq
  | .interrupt x => some x
  | _ => none

def events (ls : List (Label ev irq)) : List ev := ls.filterMap Label.event?

def interrupts (ls : List (Label ev irq)) : List irq := ls.filterMap Label.interrupt?

/-- An event goes to the idle task, which has not executed anything for it yet. -/
def step (c : Config σ stmt) : Label ev irq → Option (Config σ stmt)
  | .event e =>
    if t.halted c.state ∨ c.pending ≠ [] then none else some ⟨c.state, t.handler c.state e⟩
  | .advance =>
    match c.pending with
    | [] => none
    | s :: rest => if t.halted c.state then none else some ⟨t.exec c.state s, rest⟩
  | .interrupt x =>
    if t.halted c.state then none else some ⟨t.interrupt c.state x, c.pending⟩

@[simp] theorem events_append_event (ls : List (Label ev irq)) (e : ev) :
    events (ls ++ [.event e]) = events ls ++ [e] := by
  rw [events, List.filterMap_append]
  rfl

@[simp] theorem events_append_advance (ls : List (Label ev irq)) :
    events (ls ++ [.advance]) = events ls := by
  rw [events, List.filterMap_append]
  exact List.append_nil _

@[simp] theorem events_append_interrupt (ls : List (Label ev irq)) (x : irq) :
    events (ls ++ [.interrupt x]) = events ls := by
  rw [events, List.filterMap_append]
  exact List.append_nil _

@[simp] theorem interrupts_append_event (ls : List (Label ev irq)) (e : ev) :
    interrupts (ls ++ [.event e]) = interrupts ls := by
  rw [interrupts, List.filterMap_append]
  exact List.append_nil _

@[simp] theorem interrupts_append_advance (ls : List (Label ev irq)) :
    interrupts (ls ++ [.advance]) = interrupts ls := by
  rw [interrupts, List.filterMap_append]
  exact List.append_nil _

@[simp] theorem interrupts_append_interrupt (ls : List (Label ev irq)) (x : irq) :
    interrupts (ls ++ [.interrupt x]) = interrupts ls ++ [x] := by
  rw [interrupts, List.filterMap_append]
  rfl

section Steps

variable {t} {c c' : Config σ stmt}

theorem step_event {e : ev} (h : t.step c (.event e) = some c') :
    t.halted c.state = false ∧ c.pending = [] ∧ c' = ⟨c.state, t.handler c.state e⟩ := by
  obtain ⟨hc, heq⟩ := Option.ite_none_left_eq_some.mp h
  rw [not_or, Bool.not_eq_true, not_not] at hc
  exact ⟨hc.1, hc.2, (Option.some.inj heq).symm⟩

theorem step_advance (h : t.step c .advance = some c') :
    t.halted c.state = false ∧ ∃ s rest, c.pending = s :: rest ∧ c' = ⟨t.exec c.state s, rest⟩ := by
  obtain ⟨s, pending⟩ := c
  cases pending with
  | nil => cases h
  | cons st rest =>
      obtain ⟨hlive, heq⟩ := Option.ite_none_left_eq_some.mp h
      exact ⟨by simpa using hlive, st, rest, rfl, (Option.some.inj heq).symm⟩

theorem step_interrupt {x : irq} (h : t.step c (.interrupt x) = some c') :
    t.halted c.state = false ∧ c' = ⟨t.interrupt c.state x, c.pending⟩ := by
  obtain ⟨hc, heq⟩ := Option.ite_none_left_eq_some.mp h
  exact ⟨by simpa using hc, (Option.some.inj heq).symm⟩

end Steps

/-- An invariant of configurations and labels taken, one obligation for each kind of label. -/
theorem invariant_of_run {P : List (Label ev irq) → Config σ stmt → Prop}
    (hevent : ∀ ls s e, t.halted s = false → P ls ⟨s, []⟩ →
      P (ls ++ [.event e]) ⟨s, t.handler s e⟩)
    (hadvance : ∀ ls s st rest, t.halted s = false → P ls ⟨s, st :: rest⟩ →
      P (ls ++ [.advance]) ⟨t.exec s st, rest⟩)
    (hinterrupt : ∀ ls s pending x, t.halted s = false → P ls ⟨s, pending⟩ →
      P (ls ++ [.interrupt x]) ⟨t.interrupt s x, pending⟩)
    {c c' : Config σ stmt} {ls : List (Label ev irq)} (hc : P [] c)
    (hrun : run t.step c ls = some c') : P ls c' := by
  refine run_invariant t.step ?_ hc hrun
  rintro ls ⟨s, pending⟩ l c'' hinv hstep
  cases l with
  | event e =>
      obtain ⟨hlive, hidle, rfl⟩ := step_event hstep
      obtain rfl : pending = [] := hidle
      exact hevent ls s e hlive hinv
  | advance =>
      obtain ⟨hlive, st, rest, hp, rfl⟩ := step_advance hstep
      obtain rfl : pending = st :: rest := hp
      exact hadvance ls s st rest hlive hinv
  | interrupt x =>
      obtain ⟨hlive, rfl⟩ := step_interrupt hstep
      exact hinterrupt ls s pending x hlive hinv

section Progress

/-- A handler that is not interrupted comes to its end, or halts the task. -/
theorem exists_run_idle (pending : List stmt) (s : σ) :
    ∃ ls c, run t.step ⟨s, pending⟩ ls = some c ∧ events ls = [] ∧
      (t.halted c.state = true ∨ c.pending = []) := by
  induction pending generalizing s with
  | nil => exact ⟨[], ⟨s, []⟩, rfl, rfl, Or.inr rfl⟩
  | cons st rest ih =>
      cases hs : t.halted s with
      | true => exact ⟨[], ⟨s, st :: rest⟩, rfl, rfl, Or.inl hs⟩
      | false =>
          obtain ⟨ls, c, hrun, hevents, hend⟩ := ih (t.exec s st)
          refine ⟨.advance :: ls, c, ?_, hevents, hend⟩
          have hstep : t.step ⟨s, st :: rest⟩ .advance = some ⟨t.exec s st, rest⟩ := by
            simp [step, hs]
          rw [run_cons, hstep]
          exact hrun

theorem exists_run_events (es : List ev) (s : σ) :
    ∃ ls c, run t.step ⟨s, []⟩ ls = some c ∧ events ls <+: es ∧
      (t.halted c.state = true ∨ c.pending = [] ∧ events ls = es) := by
  induction es using List.reverseRecOn with
  | nil => exact ⟨[], ⟨s, []⟩, rfl, List.prefix_refl _, Or.inr ⟨rfl, rfl⟩⟩
  | append_singleton es e ih =>
      obtain ⟨ls, c, hrun, hprefix, hend⟩ := ih
      cases hs : t.halted c.state with
      | true => exact ⟨ls, c, hrun, hprefix.trans (List.prefix_append _ _), Or.inl hs⟩
      | false =>
          obtain ⟨hidle, hevents⟩ : c.pending = [] ∧ events ls = es := by simpa [hs] using hend
          have hstep : t.step c (.event e) = some ⟨c.state, t.handler c.state e⟩ := by
            simp [step, hs, hidle]
          obtain ⟨ms, c', hrest, hquiet, hend'⟩ :=
            t.exists_run_idle (t.handler c.state e) c.state
          have hall : events (ls ++ [.event e] ++ ms) = es ++ [e] := by
            rw [events, List.filterMap_append, ← events, ← events, events_append_event, hevents,
              hquiet, List.append_nil]
          refine ⟨ls ++ [.event e] ++ ms, c', ?_, hall ▸ List.prefix_refl _, ?_⟩
          · exact (run_append_eq_some t.step).mpr
              ⟨_, (run_append_singleton_eq_some t.step).mpr ⟨c, hrun, hstep⟩, hrest⟩
          · exact hend'.imp_right (fun h => ⟨h, hall⟩)

end Progress
end EventTask
end CLib
