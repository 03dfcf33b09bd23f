import Mathlib.Data.List.Dedup
import Mathlib.Logic.Function.Basic
import RowGuard.Synced.Function

/-! # Functions that come and go, and their names

A program makes query functions, clones and drops its handles of them, names them and asks for their
names.  A function is gone with its last handle, and then its address may be given to a new one; its
name stays in the registry until the next function is named.  Whatever the program has done, a
function that is still there has the name that it was given last, or none if it was never named.
-/
namespace RowGuard

namespace NameRegistry
variable {r : NameRegistry} {live : Nat → Bool} {names : Place → Option String} {f : Place}

/-- The place that an entry is about. -/
def placeOf (e : Nat × NameEntry) : Place := ⟨e.1, e.2.allocation⟩

/-- The registry holds the names of all live functions; the function of an entry may be gone, but the
name in it is the one that it had. -/
structure Records (r : NameRegistry) (live : Nat → Bool) (names : Place → Option String) : Prop where
  distinct : (r.entries.map Prod.fst).Nodup
  named : ∀ e ∈ r.entries, names (placeOf e) = some e.2.name
  kept : ∀ f name, live f.allocation = true → names f = some name →
    (f.address, ⟨f.allocation, name⟩) ∈ r.entries

/-- No other live function that has a name lives at the address of the function. -/
def Alone (live : Nat → Bool) (names : Place → Option String) (f : Place) : Prop :=
  ∀ g : Place, live g.allocation = true → (names g).isSome = true → g.address = f.address → g = f

theorem records_empty : empty.Records live fun _ => none where
  distinct := List.nodup_nil
  named := fun _ he => nomatch he
  kept := fun _ _ _ hn => nomatch hn

namespace Records

/-- The named functions that are live afterwards have been live before. -/
theorem mono (h : r.Records live names) {live' : Nat → Bool}
    (hl : ∀ f, (names f).isSome = true → live' f.allocation = true → live f.allocation = true) :
    r.Records live' names :=
  { h with kept := fun f name hf hn => h.kept f name (hl f (by simp [hn]) hf) hn }

theorem mem_entries_iff (h : r.Records live names) {a : Nat} {e : NameEntry} :
    r.entry? a = some e ↔ (a, e) ∈ r.entries := by
  have hd := h.distinct
  unfold entry?
  generalize r.entries = entries at hd
  induction entries with
  | nil => simp
  | cons x entries ih =>
    obtain ⟨b, x⟩ := x
    rw [List.map_cons, List.nodup_cons] at hd
    rw [List.lookup_cons, List.mem_cons]
    by_cases hb : a = b
    · subst hb
      have hnot : (a, e) ∉ entries := fun hm => hd.1 (List.mem_map.2 ⟨_, hm, rfl⟩)
      simp [hnot, eq_comm]
    · have hb' : (a == b) = false := by simpa using hb
      simp [hb', hb, ih hd.2]

/-- Naming a function changes the name of this function, as long as no live one is in its place. -/
theorem register (h : r.Records live names) (hf : Alone live names f) (name : String) :
    (r.register live f name).Records live (Function.update names f (some name)) where
  distinct := by
    have hkept : ((r.entries.filter fun e => live e.2.allocation && e.1 != f.address).map
        Prod.fst).Nodup := h.distinct.sublist (List.filter_sublist.map _)
    refine List.nodup_cons.2 ⟨fun hm => ?_, hkept⟩
    obtain ⟨e, he, hea⟩ := List.mem_map.1 hm
    have hne : live e.2.allocation = true ∧ e.1 ≠ f.address := by
      simpa using (List.mem_filter.1 he).2
    exact hne.2 hea
  named := by
    intro e he
    rcases List.mem_cons.1 he with rfl | he
    · exact Function.update_self ..
    · obtain ⟨hmem, hcond⟩ := List.mem_filter.1 he
      have hne : placeOf e ≠ f := by
        rintro rfl
        simp [placeOf] at hcond
      rw [Function.update_of_ne hne]
      exact h.named e hmem
  kept := by
    intro g n hg hn
    by_cases hgf : g = f
    · subst hgf
      rw [Function.update_self] at hn
      obtain rfl := Option.some.inj hn
      exact List.mem_cons_self
    · rw [Function.update_of_ne hgf] at hn
      have haddress : g.address ≠ f.address := fun ha => hgf (hf g hg (by simp [hn]) ha)
      refine List.mem_cons_of_mem _ (List.mem_filter.2 ⟨h.kept g n hg hn, ?_⟩)
      simp [hg, haddress]

/-- A live function has the name that the registry holds for it, and none else. -/
theorem lookup_eq (h : r.Records live names) (hl : live f.allocation = true)
    (hf : Alone live names f) : r.lookup live f = names f := by
  cases hn : names f with
  | some name =>
    have he := h.mem_entries_iff.2 (h.kept f name hl hn)
    simp [lookup, he, hl]
  | none =>
    rw [lookup]
    cases he : r.entry? f.address with
    | none => rfl
    | some e =>
      -- a live entry under the address would be about the function itself
      have hname := h.named _ (h.mem_entries_iff.1 he)
      have hdead : live e.allocation ≠ true := fun hlive => by
        have hg := hf ⟨f.address, e.allocation⟩ hlive (Option.isSome_of_mem hname) rfl
        rw [placeOf, hg, hn] at hname
        cases hname
      simp [hdead]

/-- The registry counts the live functions that have a name. -/
theorem size_eq (h : r.Records live names) {fs : List Place} (hd : fs.Nodup)
    (hfs : ∀ f, f ∈ fs ↔ live f.allocation = true ∧ (names f).isSome = true) :
    r.size live = fs.length := by
  have hplaces : ((r.entries.filter fun e => live e.2.allocation).map placeOf).Nodup := by
    have haddresses := h.distinct.sublist
      ((List.filter_sublist (p := fun e : Nat × NameEntry => live e.2.allocation)).map Prod.fst)
    refine List.Nodup.of_map Place.address ?_
    rwa [List.map_map]
  have hperm : ((r.entries.filter fun e => live e.2.allocation).map placeOf).Perm fs := by
    refine (List.perm_ext_iff_of_nodup hplaces hd).2 fun f => ?_
    rw [hfs, List.mem_map]
    constructor
    · rintro ⟨e, he, rfl⟩
      obtain ⟨hmem, hlive⟩ := List.mem_filter.1 he
      exact ⟨hlive, by simp [h.named e hmem]⟩
    · rintro ⟨hlive, hname⟩
      obtain ⟨name, hn⟩ := Option.isSome_iff_exists.1 hname
      exact ⟨_, List.mem_filter.2 ⟨h.kept f name hlive hn, hlive⟩, rfl⟩
  rw [size, ← hperm.length_eq, List.length_map]

end Records
end NameRegistry

/-- What a program does with query functions and their names. -/
inductive NamingStep where
  /-- Make a function at an address, with one handle. -/
  | create (address : Nat)
  /-- Make another handle of a function. -/
  | clone (f : Place)
  /-- Drop a handle of a function. -/
  | drop (f : Place)
  | register (f : Place) (name : String)
  | lookup (f : Place)

/-- The name that a function was given last. -/
def latestName (steps : List NamingStep) (f : Place) : Option String :=
  steps.reverse.findSome? fun
    | .register g name => if g = f then some name else none
    | _ => none

/-- A program that makes functions and names them. -/
structure Naming where
  /-- The place of every handle; clones are at one place. -/
  handles : List Place
  /-- The number of functions made so far, which is the next number of an allocation. -/
  made : Nat
  registry : NameRegistry

namespace Naming

/-- Nothing is made and nothing is named. -/
def start : Naming := ⟨[], 0, .empty⟩

/-- Whether a function has a handle left. -/
def live (s : Naming) (allocation : Nat) : Bool := s.handles.any (·.allocation == allocation)

/-- Make a step.  It takes a handle to clone, drop, name or look up a function, and a new function is
given an address at which no live one is. -/
def step? (s : Naming) : NamingStep → Option Naming
  | .create address =>
    if s.handles.any (·.address == address) then none
    else some ⟨⟨address, s.made⟩ :: s.handles, s.made + 1, s.registry⟩
  | .clone f => if f ∈ s.handles then some { s with handles := f :: s.handles } else none
  | .drop f => if f ∈ s.handles then some { s with handles := s.handles.erase f } else none
  | .register f name =>
    if f ∈ s.handles then some { s with registry := s.registry.register s.live f name } else none
  | .lookup f => if f ∈ s.handles then some s else none

/-- Make steps one after another. -/
def run? (s : Naming) (steps : List NamingStep) : Option Naming := steps.foldlM step? s

theorem live_eq_true_iff {s : Naming} {a : Nat} :
    s.live a = true ↔ ∃ f ∈ s.handles, f.allocation = a := by
  simp [live]

end Naming

@[simp] theorem latestName_nil : latestName [] = fun _ => none := rfl

theorem latestName_snoc_register (steps : List NamingStep) (f : Place) (name : String) :
    latestName (steps ++ [.register f name]) =
      Function.update (latestName steps) f (some name) := by
  funext g
  by_cases hg : g = f
  · simp [latestName, hg]
  · simp [latestName, hg, Ne.symm hg]

/-- A step that names no function changes no name. -/
theorem latestName_snoc_of_ne (steps : List NamingStep) {x : NamingStep}
    (hx : ∀ f name, x ≠ .register f name) : latestName (steps ++ [x]) = latestName steps := by
  funext g
  cases x with
  | register f name => exact absurd rfl (hx f name)
  | _ => simp [latestName]

/-- A name that a function has, it was given. -/
theorem register_mem_of_latestName {steps : List NamingStep} {f : Place} {name : String}
    (h : latestName steps f = some name) : .register f name ∈ steps := by
  obtain ⟨x, hx, he⟩ := List.exists_of_findSome?_eq_some h
  cases x with
  | register g n =>
    obtain ⟨rfl, hn⟩ := Option.ite_none_right_eq_some.1 he
    obtain rfl := Option.some.inj hn
    exact List.mem_reverse.1 hx
  | _ => cases he

/-- A function that was given a name has one. -/
theorem latestName_isSome_of_mem {steps : List NamingStep} {f : Place} {name : String}
    (h : .register f name ∈ steps) : (latestName steps f).isSome = true :=
  List.findSome?_isSome_iff.2 ⟨_, List.mem_reverse.2 h, by simp⟩

namespace Naming
section
variable {s s' : Naming} {names : Place → Option String} {steps past : List NamingStep}
  {x : NamingStep} {f g : Place}

/-- A function that has a handle, or that had one when it was named. -/
def Known (s : Naming) (names : Place → Option String) (f : Place) : Prop :=
  f ∈ s.handles ∨ (names f).isSome = true

/-- What every step preserves.  The number of its allocation tells a function from all others, and
its address tells it from those that are live with it. -/
structure Sound (s : Naming) (names : Place → Option String) : Prop where
  records : s.registry.Records s.live names
  made : ∀ f, s.Known names f → f.allocation < s.made
  known : ∀ f g, s.Known names f → s.Known names g → f.allocation = g.allocation → f = g
  apart : ∀ f ∈ s.handles, ∀ g ∈ s.handles, f.address = g.address → f = g

namespace Sound

theorem start : start.Sound (latestName []) where
  records := NameRegistry.records_empty
  made := by simp [Known, Naming.start]
  known := by simp [Known, Naming.start]
  apart := by simp [Naming.start]

theorem live_iff (h : s.Sound names) (hf : s.Known names f) :
    s.live f.allocation = true ↔ f ∈ s.handles := by
  rw [live_eq_true_iff]
  constructor
  · rintro ⟨g, hg, ha⟩
    exact h.known g f (.inl hg) hf ha ▸ hg
  · exact fun hm => ⟨f, hm, rfl⟩

theorem alone (h : s.Sound names) (hf : f ∈ s.handles) : NameRegistry.Alone s.live names f :=
  fun g hg hn ha => h.apart g ((h.live_iff (.inr hn)).1 hg) f hf ha

/-- Handles may be cloned and dropped. -/
theorem of_handles (h : s.Sound names) {handles : List Place} (hs : ∀ f ∈ handles, f ∈ s.handles) :
    Sound { s with handles } names := by
  have hknown : ∀ f, Known { s with handles } names f → s.Known names f :=
    fun f => Or.imp_left (hs f)
  refine ⟨h.records.mono fun f _ hf => ?_, fun f hf => h.made f (hknown f hf),
    fun f g hf hg => h.known f g (hknown f hf) (hknown g hg),
    fun f hf g hg => h.apart f (hs f hf) g (hs g hg)⟩
  obtain ⟨g, hg, ha⟩ := live_eq_true_iff.1 hf
  exact live_eq_true_iff.2 ⟨g, hs g hg, ha⟩

/-- A new function has the number of no other one, and the address of no live one. -/
theorem create (h : s.Sound names) {address : Nat} (ha : ∀ f ∈ s.handles, f.address ≠ address) :
    Sound ⟨⟨address, s.made⟩ :: s.handles, s.made + 1, s.registry⟩ names := by
  generalize hnew : (⟨address, s.made⟩ : Place) = new
  have hmade : new.allocation = s.made := by rw [← hnew]
  have haddress : new.address = address := by rw [← hnew]
  have hknown : ∀ f, Known ⟨new :: s.handles, s.made + 1, s.registry⟩ names f →
      f = new ∨ s.Known names f := by
    rintro f (hf | hf)
    · exact (List.mem_cons.1 hf).imp_right .inl
    · exact .inr (.inr hf)
  have hfresh : ∀ f, s.Known names f → f.allocation ≠ new.allocation := fun f hf he =>
    absurd (h.made f hf) (by omega)
  refine ⟨?records, ?made, ?known, ?apart⟩
  case records =>
    refine h.records.mono fun f hn hf => ?_
    obtain ⟨g, hg, hga⟩ := live_eq_true_iff.1 hf
    rcases List.mem_cons.1 hg with rfl | hg
    · exact absurd hga.symm (hfresh f (.inr hn))
    · exact live_eq_true_iff.2 ⟨g, hg, hga⟩
  case made =>
    intro f hf
    rcases hknown f hf with rfl | hf
    · exact hmade ▸ Nat.lt_succ_self _
    · exact Nat.lt_succ_of_lt (h.made f hf)
  case known =>
    intro f g hf hg he
    rcases hknown f hf with hf' | hf' <;> rcases hknown g hg with hg' | hg'
    · rw [hf', hg']
    · exact absurd (hf' ▸ he).symm (hfresh g hg')
    · exact absurd (hg' ▸ he) (hfresh f hf')
    · exact h.known f g hf' hg' he
  case apart =>
    intro f hf g hg he
    rcases List.mem_cons.1 hf with hf' | hf' <;> rcases List.mem_cons.1 hg with hg' | hg'
    · rw [hf', hg']
    · exact absurd (hf' ▸ he).symm (haddress ▸ ha g hg')
    · exact absurd (hg' ▸ he) (haddress ▸ ha f hf')
    · exact h.apart f hf' g hg' he

theorem register (h : s.Sound names) (hf : f ∈ s.handles) (name : String) :
    Sound { s with registry := s.registry.register s.live f name }
      (Function.update names f (some name)) := by
  have hknown : ∀ g, Known { s with registry := s.registry.register s.live f name }
      (Function.update names f (some name)) g → s.Known names g := by
    rintro g (hg | hg)
    · exact .inl hg
    · by_cases hgf : g = f
      · exact .inl (hgf ▸ hf)
      · rw [Function.update_of_ne hgf] at hg
        exact .inr hg
  exact {
    records := h.records.register (h.alone hf) name
    made := fun g hg => h.made g (hknown g hg)
    known := fun g g' hg hg' => h.known g g' (hknown g hg) (hknown g' hg')
    apart := h.apart }

theorem step (h : s.Sound (latestName steps)) (hs : s.step? x = some s') :
    s'.Sound (latestName (steps ++ [x])) := by
  cases x with
  | create address =>
    obtain ⟨ha, he⟩ := Option.ite_none_left_eq_some.1 hs
    obtain rfl := Option.some.inj he
    rw [latestName_snoc_of_ne steps (by simp)]
    exact h.create (by simpa using ha)
  | clone f =>
    obtain ⟨hf, he⟩ := Option.ite_none_right_eq_some.1 hs
    obtain rfl := Option.some.inj he
    rw [latestName_snoc_of_ne steps (by simp)]
    exact h.of_handles (List.forall_mem_cons.2 ⟨hf, fun _ hg => hg⟩)
  | drop f =>
    obtain ⟨-, he⟩ := Option.ite_none_right_eq_some.1 hs
    obtain rfl := Option.some.inj he
    rw [latestName_snoc_of_ne steps (by simp)]
    exact h.of_handles fun _ hg => List.mem_of_mem_erase hg
  | register f name =>
    obtain ⟨hf, he⟩ := Option.ite_none_right_eq_some.1 hs
    obtain rfl := Option.some.inj he
    rw [latestName_snoc_register]
    exact h.register hf name
  | lookup f =>
    obtain ⟨-, he⟩ := Option.ite_none_right_eq_some.1 hs
    obtain rfl := Option.some.inj he
    rw [latestName_snoc_of_ne steps (by simp)]
    exact h

theorem run (h : s.Sound (latestName past)) (hr : s.run? steps = some s') :
    s'.Sound (latestName (past ++ steps)) := by
  induction steps generalizing s past with
  | nil =>
    obtain rfl := Option.some.inj hr
    rwa [List.append_nil]
  | cons x steps ih =>
    rw [run?, List.foldlM_cons] at hr
    obtain ⟨s₁, hstep, hrest⟩ := Option.bind_eq_some_iff.1 hr
    have hsound := ih (h.step hstep) hrest
    rwa [List.append_assoc] at hsound

end Sound

/-- After any steps, the name of a function that has a handle is the one that it was given last, or
none if it never got one; it is no name that only another function was given.  The registry counts
the live functions that got a name. -/
theorem names_never_confused (hr : start.run? steps = some s) :
    (∀ f ∈ s.handles, s.registry.lookup s.live f = latestName steps f) ∧
    (∀ f ∈ s.handles, ∀ name, s.registry.lookup s.live f = some name →
      .register f name ∈ steps) ∧
    s.registry.size s.live =
      (s.handles.dedup.filter fun f => (latestName steps f).isSome).length := by
  have h : s.Sound (latestName steps) := Sound.start.run hr
  have hlookup : ∀ f ∈ s.handles, s.registry.lookup s.live f = latestName steps f := fun f hf =>
    h.records.lookup_eq ((h.live_iff (.inl hf)).2 hf) (h.alone hf)
  refine ⟨hlookup, fun f hf name hn => ?_, ?_⟩
  · exact register_mem_of_latestName ((hlookup f hf).symm.trans hn)
  · refine h.records.size_eq ((List.nodup_dedup _).filter _) fun f => ?_
    rw [List.mem_filter, List.mem_dedup]
    exact and_congr_left fun hn => (h.live_iff (.inr hn)).symm

end

/-! A function that is made at the address of a dropped one, whose name is still in the registry. -/
namespace ReusedAddress

def kept : Place := ⟨16, 0⟩

def dropped : Place := ⟨8, 1⟩

def fresh : Place := ⟨8, 2⟩

def steps : List NamingStep := [.create 16, .register kept "note.mine", .create 8, .clone dropped,
  .register dropped "note.all", .register kept "note.own", .drop dropped, .lookup dropped,
  .drop dropped, .create 8, .clone fresh]

def reached : Naming := ⟨[fresh, fresh, kept], 3,
  ⟨[(16, ⟨0, "note.own"⟩), (8, ⟨1, "note.all"⟩)]⟩⟩

end ReusedAddress

open ReusedAddress in
/-- The name of the dropped function is not taken for that of the new one. -/
theorem names_never_confused_after_drop : start.run? steps = some reached ∧
    reached.registry.entry? fresh.address = some ⟨dropped.allocation, "note.all"⟩ ∧
    reached.registry.lookup reached.live fresh = none ∧
    reached.registry.lookup reached.live kept = some "note.own" ∧
    reached.registry.size reached.live = 1 := by
  have hr : start.run? steps = some reached := rfl
  obtain ⟨hlookup, -, hsize⟩ := names_never_confused hr
  exact ⟨hr, rfl, hlookup fresh (by decide), hlookup kept (by decide), hsize⟩

end Naming
end RowGuard
