import SnifferStaSend.NvsApi

/-!
# The settings over the starts of the device

`app_main` initialises NVS before anything else. It erases the flash when the library asks for
it, and aborts on every other error, or when the second attempt fails as well; then the device
starts anew. What `get_settings` has stored outlives every start that does not erase.
-/

namespace SnifferStaSend.NvsStartUp
open CLib Nvs GetSettings SettingsRecord NvsApi

/-- The results of `nvs_flash_init` that `app_main` tells apart. -/
inductive EspErr
  | ok
  | nvsNoFreePages
  | nvsNewVersionFound
  | other
  deriving DecidableEq

/-- How the library answers: `junk` is what an `nvs_flash_erase` leaves that fails, or in which
the power does, and `again` is the result of the second `nvs_flash_init`. -/
structure Answers where
  init : EspErr
  junk : Option Flash
  again : EspErr

def Answers.Erases (u : Answers) : Prop := u.init = .nvsNoFreePages ∨ u.init = .nvsNewVersionFound

instance (u : Answers) : Decidable u.Erases := inferInstanceAs (Decidable (_ ∨ _))

/-- The flash behind the checks of `app_main`, and whether they let it go on. -/
def appMain (fl : Flash) (u : Answers) : Flash × Bool :=
  if u.Erases then
    match u.junk with
    | some junk => (junk, false)
    | none => (fun _ => none, u.again = .ok)
  else (fl, u.init = .ok)

variable {ι : Type*} [DecidableEq ι]

/-- A start, and then the calls of the tasks up to the next one. -/
def powerOn (g : Globals) (n : ι → ℕ) (fl : Flash) (x : Answers × List (Label ι)) : Option Flash :=
  if (appMain fl x.1).2 then boot g n (appMain fl x.1).1 x.2 else some (appMain fl x.1).1

section Starts

variable {g : Globals} {n : ι → ℕ} {fl fl' : Flash} {x : Answers × List (Label ι)}
  {xs : List (Answers × List (Label ι))} {u : Answers}

theorem appMain_of_not_erases (fl : Flash) (h : ¬ u.Erases) : (appMain fl u).1 = fl := by
  rw [appMain, if_neg h]

theorem appMain_of_erases (fl : Flash) (h : u.Erases) (hwhole : u.junk = none) :
    (appMain fl u).1 = fun _ => none := by
  rw [appMain, if_pos h, hwhole]

theorem powerOn_boots (h : powerOn g n fl x = some fl') : Boots (appMain fl x.1).1 g fl' := by
  rw [powerOn] at h
  by_cases hgoes : (appMain fl x.1).2 = true
  · rw [if_pos hgoes] at h
    obtain ⟨s, -, rfl, hboot⟩ := boot_spec h
    exact ⟨hboot.frame, hboot.keys, fun hrecord => holdsRecord_of_keys hrecord hboot.keys⟩
  · rw [if_neg hgoes] at h
    obtain rfl := Option.some.inj h
    exact ⟨fun _ _ => rfl, fun _ _ => Or.inl rfl, id⟩

theorem record_run (hkept : ∀ y ∈ xs, ¬ y.1.Erases) (hrecord : HoldsRecord fl g)
    (hrun : run (powerOn g n) fl xs = some fl') : HoldsRecord fl' g := by
  refine run_invariant (powerOn g n)
    (P := fun ys fl' => (∀ y ∈ ys, ¬ y.1.Erases) → HoldsRecord fl' g) ?_ (fun _ => hrecord) hrun
    hkept
  intro ys fl₁ y fl₂ hbefore hstep hall
  have hkeep : ¬ y.1.Erases := hall y (List.mem_append_right ys (List.mem_singleton_self y))
  have hboots := powerOn_boots hstep
  rw [appMain_of_not_erases fl₁ hkeep] at hboots
  exact hboots.record (hbefore (fun z hz => hall z (List.mem_append_left _ hz)))

/-- A key has lost its value in an erase, or still has that of `fl` or the one of `g`. -/
structure Faded (fl : Flash) (g : Globals) (erased : Prop) (fl' : Flash) : Prop where
  frame : ∀ k ∉ settingsKeys, fl' k = fl k ∨ erased ∧ fl' k = none
  keys : ∀ w ∈ writeSettings g,
    fl' w.key = fl w.key ∨ fl' w.key = some w.value ∨ erased ∧ fl' w.key = none

theorem Faded.powerOn_erasing (herases : x.1.Erases) (hwhole : x.1.junk = none) (fl₀ : Flash)
    {erased : Prop} (herased : erased) (hstep : powerOn g n fl x = some fl') :
    Faded fl₀ g erased fl' := by
  have hboots := powerOn_boots hstep
  rw [appMain_of_erases fl herases hwhole] at hboots
  constructor
  · exact fun k hk => Or.inr ⟨herased, hboots.frame k hk⟩
  · intro w hw
    rcases hboots.keys w hw with hgone | hnew
    · exact Or.inr (Or.inr ⟨herased, hgone⟩)
    · exact Or.inr (Or.inl hnew)

theorem Faded.powerOn_keeping {fl₀ : Flash} {erased erased' : Prop} (h : Faded fl₀ g erased fl)
    (hkeeps : ¬ x.1.Erases) (hmono : erased → erased') (hstep : powerOn g n fl x = some fl') :
    Faded fl₀ g erased' fl' := by
  have hboots := powerOn_boots hstep
  rw [appMain_of_not_erases fl hkeeps] at hboots
  constructor
  · intro k hk
    rw [hboots.frame k hk]
    exact (h.frame k hk).imp_right (And.imp_left hmono)
  · intro w hw
    rcases hboots.keys w hw with hold | hnew
    · rw [hold]
      exact (h.keys w hw).imp_right (Or.imp_right (And.imp_left hmono))
    · exact Or.inr (Or.inl hnew)

theorem faded_run (hwhole : ∀ x ∈ xs, x.1.junk = none)
    (hrun : run (powerOn g n) fl xs = some fl') :
    Faded fl g (∃ x ∈ xs, x.1.Erases) fl' := by
  refine run_invariant (powerOn g n)
    (P := fun ys fl' => (∀ y ∈ ys, y.1.junk = none) → Faded fl g (∃ y ∈ ys, y.1.Erases) fl')
    ?_ (fun _ => ⟨fun _ _ => Or.inl rfl, fun _ _ => Or.inl rfl⟩) hrun hwhole
  intro ys fl₁ y fl₂ hbefore hstep hall
  have hlast : y ∈ ys ++ [y] := List.mem_append_right ys (List.mem_singleton_self y)
  by_cases herases : y.1.Erases
  · exact Faded.powerOn_erasing herases (hall y hlast) fl ⟨y, hlast, herases⟩ hstep
  · have hold := hbefore (fun z hz => hall z (List.mem_append_left _ hz))
    refine hold.powerOn_keeping herases ?_ hstep
    rintro ⟨z, hz, hzerases⟩
    exact ⟨z, List.mem_append_left _ hz, hzerases⟩

end Starts

/-- Over any starts of the device, each aborted by the checks or followed by calls in any order
that end anywhere. Unless an erase fails, a key holds what it held at first, or the value that
`g` has for it, or has been erased. Once a task has come back from `get_settings`, the record is
that of `g` until the next erase, whatever else fails or is cut. -/
theorem settings_survive (g : Globals) (n : ι → ℕ) (fl fl' : Flash)
    (xs : List (Answers × List (Label ι))) (hrun : run (powerOn g n) fl xs = some fl') :
    ((∀ x ∈ xs, x.1.junk = none) →
      (∀ k ∉ settingsKeys, fl' k = fl k ∨ (∃ x ∈ xs, x.1.Erases) ∧ fl' k = none) ∧
        ∀ w ∈ writeSettings g, fl' w.key = fl w.key ∨ fl' w.key = some w.value ∨
          (∃ x ∈ xs, x.1.Erases) ∧ fl' w.key = none) ∧
      ∀ before x after flash, xs = before ++ x :: after →
        run (powerOn g n) fl before = some flash → (appMain flash x.1).2 = true →
          ComesBack g n (appMain flash x.1).1 x.2 → (∀ y ∈ after, ¬ y.1.Erases) →
            HoldsRecord fl' g ∧ ∀ ram, useRomSettings fl' ram = g := by
  constructor
  · intro hwhole
    have hfaded := faded_run hwhole hrun
    exact ⟨hfaded.frame, hfaded.keys⟩
  · rintro before x after flash rfl hbefore hgoes ⟨s, hs, i, hcalls⟩ hkept
    obtain ⟨flash₁, hbefore', hrest⟩ := (run_append_eq_some (powerOn g n)).mp hrun
    obtain rfl := Option.some.inj (hbefore.symm.trans hbefore')
    rw [run_cons] at hrest
    obtain ⟨flash₂, hstep, hafter⟩ := Option.bind_eq_some_iff.mp hrest
    rw [powerOn, if_pos hgoes] at hstep
    obtain ⟨t, ht, rfl, -⟩ := boot_spec hstep
    obtain rfl := Option.some.inj (hs.symm.trans ht)
    have hrecord : HoldsRecord s.flash g := (boot_of_run hs).returned i hcalls
    have hfinal := record_run hkept hrecord hafter
    exact ⟨hfinal, hfinal.useRomSettings⟩

/-- A start that erases and is cut behind the marker, one in which `get_settings` comes to its
end, and one that is aborted. -/
def threeStarts : List (Answers × List (Label Unit)) :=
  [(⟨.nvsNoFreePages, none, .ok⟩, List.replicate 4 (.call ())),
    (⟨.ok, none, .ok⟩, List.replicate 24 (.call ())), (⟨.other, none, .ok⟩, [])]

theorem settings_survive_threeStarts : ∃ fl',
    run (powerOn Globals.compiledIn fun _ : Unit => 1) (fun _ => some (.i32 7)) threeStarts =
      some fl' ∧ HoldsRecord fl' Globals.compiledIn := by
  refine ⟨_, rfl, ?_⟩
  exact ((settings_survive Globals.compiledIn (fun _ : Unit => 1) (fun _ => some (.i32 7)) _
    threeStarts rfl).2 (threeStarts.take 1) _ (threeStarts.drop 2) _ rfl rfl rfl
    ⟨_, rfl, (), by decide⟩ (by decide)).1

end SnifferStaSend.NvsStartUp
