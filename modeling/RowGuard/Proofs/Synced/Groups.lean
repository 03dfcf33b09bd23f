import RowGuard.Proofs.Synced.Registry
import RowGuard.Synced.Queries

/-! # Grouped queries and their names

A function of a group is named by its namespace and its name, joined by a point, and is found again by
splitting that name at its first point.  A name may contain points, but a namespace that does is cut
in two: then its functions are found only where the parts happen to name the same function.  A
function that stands under several names resolves through the last of them.
-/
namespace RowGuard

/-- A namespace and a name, joined by a point. -/
def dotted (ns name : String) : String := ns ++ "." ++ name

theorem toList_dotted (ns name : String) :
    (dotted ns name).toList = ns.toList ++ '.' :: name.toList := by
  simp [dotted]

theorem dotted_dotted (a b name : String) : dotted (dotted a b) name = dotted a (dotted b name) := by
  simp [dotted, String.append_assoc]

/-- The first point of a joined name is the one at which it was joined, if the first part has none. -/
theorem splitAtPoint_dotted {ns : String} (h : '.' ∉ ns.toList) (name : String) :
    splitAtPoint (dotted ns name) = some (ns, name) := by
  have hns : ∀ c ∈ ns.toList, decide (c ≠ '.') = true := fun c hc =>
    decide_eq_true fun he => h (he ▸ hc)
  have hdrop : (ns.toList ++ '.' :: name.toList).dropWhile (· ≠ '.') = '.' :: name.toList := by
    rw [List.dropWhile_append_of_pos hns]
    simp
  have htake : (ns.toList ++ '.' :: name.toList).takeWhile (· ≠ '.') = ns.toList := by
    rw [List.takeWhile_append_of_pos hns]
    simp
  rw [splitAtPoint, toList_dotted, hdrop]
  simp only [htake, String.ofList_toList]

/-- A text with a point is cut at the first one. -/
theorem exists_dotted_of_mem {s : String} (h : '.' ∈ s.toList) :
    ∃ a b, s = dotted a b ∧ '.' ∉ a.toList := by
  obtain ⟨a, b, he, ha⟩ := List.eq_append_cons_of_mem h
  refine ⟨String.ofList a, String.ofList b, String.toList_injective ?_, by simpa using ha⟩
  simpa [toList_dotted] using he

namespace GroupedQueries
variable {g : GroupedQueries} {f h : QueryFunction} {ns name : String}

/-- The function under a namespace and a name. -/
def find? (g : GroupedQueries) (ns name : String) : Option QueryFunction :=
  (g.get? ns).bind (·.get? name)

/-- A function stands somewhere in the groups. -/
def Holds (g : GroupedQueries) (f : QueryFunction) : Prop := ∃ ns name, g.find? ns name = some f

/-- Some function of the groups lives at a place. -/
def Occupies (g : GroupedQueries) (p : Place) : Prop := ∃ f, g.Holds f ∧ f.place = p

/-- The functions of the groups are live, and each lives at an address of its own. -/
structure Housed (g : GroupedQueries) (live : Nat → Bool) : Prop where
  live : ∀ f, g.Holds f → live f.place.allocation = true
  apart : ∀ f h, g.Holds f → g.Holds h → f.place.address = h.place.address → f = h

/-- The dotted name of a function leads back to it.  It does if the namespace has no point; else the
part before the first point is taken for the namespace, and has to name the function as well. -/
def Regained (g : GroupedQueries) (ns name : String) (f : QueryFunction) : Prop :=
  ∀ a b, ns = dotted a b → '.' ∉ a.toList → g.find? a (dotted b name) = some f

/-- The steps by which the functions get their names. -/
def namings (g : GroupedQueries) : List NamingStep :=
  g.named.map fun nf => .register nf.2.place nf.1

theorem regained_of_plain (h : '.' ∉ ns.toList) : g.Regained ns name f := by
  rintro a b rfl -
  exact absurd (by simp [toList_dotted]) h

theorem mem_named_iff {d : String} :
    (d, f) ∈ g.named ↔ ∃ ns name, d = dotted ns name ∧ g.find? ns name = some f := by
  simp only [named, List.mem_flatMap, List.mem_map, Prod.exists, Prod.mk.injEq, find?,
    Option.bind_eq_some_iff, Dict.get?_eq_some_iff]
  constructor
  · rintro ⟨ns, qs, hns, name, _, hname, hd, rfl⟩
    exact ⟨ns, name, hd.symm, qs, hns, hname⟩
  · rintro ⟨ns, name, hd, qs, hns, hname⟩
    exact ⟨ns, qs, hns, name, f, hname, hd.symm, rfl⟩

theorem holds_of_mem_named {nf : String × QueryFunction} (hm : nf ∈ g.named) : g.Holds nf.2 := by
  obtain ⟨ns, name, -, hf⟩ := mem_named_iff.1 hm
  exact ⟨ns, name, hf⟩

theorem occupies_of_latestName {p : Place} (hp : (latestName g.namings p).isSome = true) :
    g.Occupies p := by
  obtain ⟨d, hd⟩ := Option.isSome_iff_exists.1 hp
  obtain ⟨nf, hm, he⟩ := List.mem_map.1 (register_mem_of_latestName hd)
  exact ⟨nf.2, holds_of_mem_named hm, (NamingStep.register.inj he).1⟩

theorem Housed.places_apart {live : Nat → Bool} (hg : g.Housed live) {p q : Place}
    (hp : g.Occupies p) (hq : g.Occupies q) (ha : p.address = q.address) : p = q := by
  obtain ⟨f, hf, rfl⟩ := hp
  obtain ⟨h, hh, rfl⟩ := hq
  rw [hg.apart f h hf hh ha]

/-- A name that a function of the groups has is one under which it stands. -/
theorem Housed.exists_latestName {live : Nat → Bool} (hg : g.Housed live) (hf : g.Holds f) :
    ∃ ns name, g.find? ns name = some f ∧
      latestName g.namings f.place = some (dotted ns name) := by
  obtain ⟨ns, name, hfind⟩ := hf
  have hstep : .register f.place (dotted ns name) ∈ g.namings :=
    List.mem_map.2 ⟨(dotted ns name, f), mem_named_iff.2 ⟨ns, name, rfl, hfind⟩, rfl⟩
  obtain ⟨d, hd⟩ := Option.isSome_iff_exists.1 (latestName_isSome_of_mem hstep)
  obtain ⟨⟨d', h⟩, hm, he⟩ := List.mem_map.1 (register_mem_of_latestName hd)
  obtain ⟨hplace, rfl⟩ := NamingStep.register.inj he
  obtain rfl : h = f :=
    hg.apart h f (holds_of_mem_named hm) ⟨ns, name, hfind⟩ (congrArg Place.address hplace)
  obtain ⟨ns', name', rfl, hfind'⟩ := mem_named_iff.1 hm
  exact ⟨ns', name', hfind', hd⟩

end GroupedQueries

namespace NameRegistry
variable {r : NameRegistry} {live : Nat → Bool} {past : List NamingStep}

/-- Functions are named one after another, each at an address of its own. -/
theorem Records.foldl {nfs : List (String × QueryFunction)} {P : Place → Prop}
    (h : r.Records live (latestName past))
    (hP : ∀ f g, P f → P g → f.address = g.address → f = g)
    (hpast : ∀ f name, .register f name ∈ past → P f) (hnfs : ∀ nf ∈ nfs, P nf.2.place) :
    (nfs.foldl (fun r nf => r.register live nf.2.place nf.1) r).Records live
      (latestName (past ++ nfs.map fun nf => .register nf.2.place nf.1)) := by
  induction nfs generalizing r past with
  | nil => simpa using h
  | cons nf nfs ih =>
    obtain ⟨hnf, hrest⟩ := List.forall_mem_cons.1 hnfs
    have halone : Alone live (latestName past) nf.2.place := fun g _ hg ha => by
      obtain ⟨name, hname⟩ := Option.isSome_iff_exists.1 hg
      exact hP g nf.2.place (hpast g name (register_mem_of_latestName hname)) hnf ha
    have hr := h.register halone nf.1
    rw [← latestName_snoc_register] at hr
    have hpast' : ∀ f name, .register f name ∈ past ++ [.register nf.2.place nf.1] → P f := by
      intro f name hm
      rcases List.mem_append.1 hm with hm | hm
      · exact hpast f name hm
      · obtain ⟨rfl, -⟩ := NamingStep.register.inj (List.mem_singleton.1 hm)
        exact hnf
    have hall := ih hr hpast' hrest
    rwa [List.append_assoc] at hall

/-- In a registry that knows only the groups, a function has the name that it was given last. -/
theorem lookup_registerAll {g : GroupedQueries} {live' : Nat → Bool} {f : QueryFunction}
    (hg : g.Housed live) (hlive : g.Housed live') (hf : g.Holds f) :
    (empty.registerAll live g).lookup live' f.place = latestName g.namings f.place := by
  have hempty : empty.Records live (latestName []) := records_empty
  have hrecords : (empty.registerAll live g).Records live (latestName g.namings) :=
    hempty.foldl (fun _ _ => hg.places_apart) (fun _ _ hm => nomatch hm) fun nf hm =>
      ⟨nf.2, GroupedQueries.holds_of_mem_named hm, rfl⟩
  have hmono : (empty.registerAll live g).Records live' (latestName g.namings) := by
    refine hrecords.mono fun p hp _ => ?_
    obtain ⟨h, hh, rfl⟩ := GroupedQueries.occupies_of_latestName hp
    exact hg.live h hh
  exact hmono.lookup_eq (hlive.live f hf) fun p _ hp =>
    hg.places_apart (GroupedQueries.occupies_of_latestName hp) ⟨f, hf, rfl⟩

end NameRegistry

namespace SyncedQueries
variable {schema : Schema} {g : GroupedQueries} {live live' : Nat → Bool} {f : QueryFunction}
  {ns name : String}

theorem get?_dotted (h : '.' ∉ ns.toList) :
    (⟨schema, g⟩ : SyncedQueries).get? (dotted ns name) = g.find? ns name := by
  simp only [get?, splitAtPoint_dotted h, GroupedQueries.find?]
  rfl

/-- A function of the groups is found under its dotted name exactly if this leads back to it. -/
theorem get?_eq_some_iff (hf : g.find? ns name = some f) :
    (⟨schema, g⟩ : SyncedQueries).get? (dotted ns name) = some f ↔ g.Regained ns name f := by
  by_cases hpoint : '.' ∈ ns.toList
  · obtain ⟨a, b, rfl, ha⟩ := exists_dotted_of_mem hpoint
    rw [dotted_dotted, get?_dotted ha]
    constructor
    · intro h a' b' he ha'
      -- the first point of the namespace is in one place only
      have hsplit := splitAtPoint_dotted ha b
      rw [he, splitAtPoint_dotted ha'] at hsplit
      obtain ⟨rfl, rfl⟩ := Prod.mk.inj (Option.some.inj hsplit)
      exact h
    · exact fun h => h a b rfl ha
  · rw [get?_dotted hpoint]
    exact iff_of_true hf (GroupedQueries.regained_of_plain hpoint)

theorem resolve_eq_call {q : SyncedQueries} {r : NameRegistry} {d : String}
    (h : r.lookup live f.place = some d) (s : Scope) (args : Json) :
    q.resolve r live s f args = q.call s d args := by
  rw [resolve, h]

theorem call_eq_build {q : SyncedQueries} {d : String} (h : q.get? d = some f) (s : Scope)
    (args : Json) : q.call s d args = f.build s q.schema args := by
  rw [call, h]

/-- A function of the groups resolves through one of the names under which it stands, the last one. -/
theorem exists_resolve_eq_call (hg : g.Housed live) (hlive : g.Housed live') (hf : g.Holds f) :
    ∃ ns name, g.find? ns name = some f ∧ latestName g.namings f.place = some (dotted ns name) ∧
      (∀ s args, resolve ⟨schema, g⟩ (NameRegistry.empty.registerAll live g) live' s f args =
        call ⟨schema, g⟩ s (dotted ns name) args) ∧
      (g.Regained ns name f → ∀ s args,
        resolve ⟨schema, g⟩ (NameRegistry.empty.registerAll live g) live' s f args =
          f.build s schema args) := by
  obtain ⟨ns, name, hfind, hname⟩ := hg.exists_latestName hf
  have hlookup := (NameRegistry.lookup_registerAll hg hlive hf).trans hname
  have hcall := resolve_eq_call (q := ⟨schema, g⟩) hlookup
  refine ⟨ns, name, hfind, hname, hcall, fun hr s args => ?_⟩
  rw [hcall, call_eq_build ((get?_eq_some_iff hfind).2 hr)]

/-- Groups of queries in a fresh registry: a function is found under the dotted name of its place in
the groups exactly if that leads back to it; a function resolves through the name that it was given
last, and to itself if that leads back to it.  All of this holds of every function if no namespace
contains a point. -/
theorem resolve_to_themselves_iff (hg : g.Housed live) (hlive : g.Housed live') :
    (∀ ns name f, g.find? ns name = some f →
      ((⟨schema, g⟩ : SyncedQueries).get? (dotted ns name) = some f ↔ g.Regained ns name f)) ∧
    (∀ f, g.Holds f → ∃ ns name, g.find? ns name = some f ∧
      latestName g.namings f.place = some (dotted ns name) ∧
      (∀ s args, resolve ⟨schema, g⟩ (NameRegistry.empty.registerAll live g) live' s f args =
        call ⟨schema, g⟩ s (dotted ns name) args) ∧
      (g.Regained ns name f → ∀ s args,
        resolve ⟨schema, g⟩ (NameRegistry.empty.registerAll live g) live' s f args =
          f.build s schema args)) ∧
    ((∀ ns, g.contains ns = true → '.' ∉ ns.toList) →
      (∀ ns name f, g.find? ns name = some f →
        (⟨schema, g⟩ : SyncedQueries).get? (dotted ns name) = some f) ∧
      ∀ f, g.Holds f → ∀ s args,
        resolve ⟨schema, g⟩ (NameRegistry.empty.registerAll live g) live' s f args =
          f.build s schema args) := by
  refine ⟨fun ns name f => get?_eq_some_iff, fun f => exists_resolve_eq_call hg hlive,
    fun hplain => ?_⟩
  have hregained : ∀ ns name f, g.find? ns name = some f → g.Regained ns name f := by
    intro ns name f hf
    obtain ⟨qs, hns, -⟩ := Option.bind_eq_some_iff.1 hf
    exact GroupedQueries.regained_of_plain (hplain ns (Option.isSome_of_mem hns))
  constructor
  · exact fun ns name f hf => (get?_eq_some_iff hf).2 (hregained ns name f hf)
  · intro f hf
    obtain ⟨ns, name, hfind, -, -, hbuild⟩ := exists_resolve_eq_call hg hlive hf
    exact hbuild (hregained ns name f hfind)

end SyncedQueries

/-! Two functions on the notes, one of them under two names, and a namespace with a point. -/
namespace NotesByName

def notes : Schema := Schema.empty.addTable ⟨"note", [⟨"id", .string, false, none⟩], ["id"]⟩

def all : QueryFunction := ⟨⟨8, 0⟩, some "all", fun _ schema _ => .ofOutcome (schema.query "note")⟩

def first : QueryFunction :=
  ⟨⟨16, 1⟩, some "first", fun _ schema _ => .ofOutcome ((schema.query "note").map Query.one)⟩

def grouped : GroupedQueries :=
  ((GroupedQueries.add .empty "note" "all" all).add "note" "open.first" first).add "task" "all" all

def pointed : GroupedQueries := GroupedQueries.add .empty "note.open" "all" all

def live (_ : Nat) : Bool := true

theorem named_grouped : grouped.named =
    [("note.all", all), ("note.open.first", first), ("task.all", all)] := rfl

theorem housed_grouped : grouped.Housed live := by
  have hone : ∀ f, grouped.Holds f → f = all ∨ f = first := by
    rintro f ⟨ns, name, hf⟩
    have hm := GroupedQueries.mem_named_iff.2 ⟨ns, name, rfl, hf⟩
    rw [named_grouped] at hm
    simp at hm
    tauto
  refine ⟨fun _ _ => rfl, fun f h hf hh ha => ?_⟩
  rcases hone f hf with rfl | rfl <;> rcases hone h hh with rfl | rfl
  · rfl
  · cases ha
  · cases ha
  · rfl

end NotesByName

open NotesByName in
theorem SyncedQueries.resolve_to_themselves_for_notes : grouped.Housed live ∧
    latestName grouped.namings all.place = some "task.all" ∧
    (⟨notes, grouped⟩ : SyncedQueries).get? "note.open.first" = some first ∧
    ∀ s args, resolve ⟨notes, grouped⟩ (NameRegistry.empty.registerAll live grouped) live s all
      args = all.build s notes args := by
  have hplain : ∀ ns, grouped.contains ns = true → '.' ∉ ns.toList := by
    intro ns hns
    have hkeys : ns ∈ ["note", "task"] := Dict.mem_keys_iff.2 hns
    simp at hkeys
    rcases hkeys with rfl | rfl <;> decide
  have hall := @resolve_to_themselves_iff notes grouped live live housed_grouped housed_grouped
  obtain ⟨hfound, hbuild⟩ := hall.2.2 hplain
  exact ⟨housed_grouped, rfl, hfound "note" "open.first" first rfl, hbuild all ⟨"note", "all", rfl⟩⟩

open NotesByName in
/-- The function is asked for in the namespace `note`, where it does not stand. -/
theorem SyncedQueries.function_lost_in_pointed_namespace :
    pointed.find? "note.open" "all" = some all ∧
    (⟨notes, pointed⟩ : SyncedQueries).get? (dotted "note.open" "all") = none ∧
    (resolve ⟨notes, pointed⟩ (NameRegistry.empty.registerAll live pointed) live .outside all
        .null).result =
      .error (.configuration ("CustomQuery 'note.open.all' not found. Check that the query is "
        ++ "exported and the namespace/name matches.")) ∧
    (all.build .outside notes .null).result = notes.query "note" ∧
    (notes.query "note").isOk = true := by
  refine ⟨rfl, rfl, rfl, rfl, rfl⟩

end RowGuard
