import RowGuard.Proofs.Json.Text
import RowGuard.Proofs.Gate.Exactness

/-! # The texts of subjects

A subject is recorded under the name of its table, a colon and the compact text of its key.  Names
and keys may hold any characters, colons and brackets too.  Still the text can be cut in one place
only: a scan of the key that counts brackets and keeps track of strings does not stand where it
began before the last bracket.
-/
namespace RowGuard

/-- Where a scan of a compact text stands: outside or inside of a string, behind a backslash, within
so many brackets; or nowhere, because no array goes on like this. -/
inductive Scan where
  | outside (depth : Nat)
  | inside (depth : Nat)
  | escaped (depth : Nat)
  | stuck

namespace Scan

def step : Scan → Char → Scan
  | outside 0, c => if c = '[' then outside 1 else stuck
  | outside (d + 1), c =>
    if c = '[' then outside (d + 2)
    else if c = ']' then outside d
    else if c = '"' then inside (d + 1)
    else if c = '\\' then stuck
    else outside (d + 1)
  | inside d, c => if c = '"' then outside d else if c = '\\' then escaped d else inside d
  | escaped d, _ => inside d
  | stuck, _ => stuck

def run (s : Scan) (cs : List Char) : Scan := cs.foldl step s

@[simp] theorem run_nil (s : Scan) : s.run [] = s := rfl

@[simp] theorem run_cons (s : Scan) (c : Char) (cs : List Char) :
    s.run (c :: cs) = (s.step c).run cs := rfl

@[simp] theorem run_append (s : Scan) (cs ds : List Char) :
    s.run (cs ++ ds) = (s.run cs).run ds := List.foldl_append

@[simp] theorem run_stuck (cs : List Char) : stuck.run cs = stuck := by
  induction cs with
  | nil => rfl
  | cons c cs ih => exact ih

/-! ### A value leaves the scan where it was -/

/-- Within brackets, a scan of the text ends where it began. -/
def Keeps (cs : List Char) : Prop := ∀ d, (outside (d + 1)).run cs = outside (d + 1)

theorem Keeps.append {cs ds : List Char} (hc : Keeps cs) (hd : Keeps ds) : Keeps (cs ++ ds) :=
  fun d => by rw [run_append, hc, hd]

theorem Keeps.cons {c : Char} {cs : List Char} (hc : c = ',' ∨ c = ':' ∨ Json.isMark c = false)
    (h : Keeps cs) : Keeps (c :: cs) := fun d => by
  have hstep : (outside (d + 1)).step c = outside (d + 1) := by
    rcases hc with rfl | rfl | hc
    · rfl
    · rfl
    · simp only [Json.isMark, List.contains_cons, List.contains_nil, Bool.or_false,
        Bool.or_eq_false_iff, beq_eq_false_iff_ne] at hc
      simp [step, hc]
  rw [run_cons, hstep, h]

theorem Keeps.of_plain {cs : List Char} (h : ∀ c ∈ cs, Json.isMark c = false) : Keeps cs := by
  induction cs with
  | nil => exact fun d => rfl
  | cons c cs ih => exact .cons (.inr (.inr (h c (.head _)))) (ih fun d hd => h d (.tail _ hd))

theorem Keeps.flatMap {α : Type} {f : α → List Char} {xs : List α} (h : ∀ x ∈ xs, Keeps (f x)) :
    Keeps (xs.flatMap f) := by
  induction xs with
  | nil => exact fun d => rfl
  | cons x xs ih => exact (h x (.head _)).append (ih fun y hy => h y (.tail _ hy))

theorem Keeps.joined {α : Type} {f : α → List Char} {xs : List α} (h : ∀ x ∈ xs, Keeps (f x)) :
    Keeps (Json.joined f xs) := by
  cases xs with
  | nil => exact fun d => rfl
  | cons x xs =>
    exact (h x (.head _)).append (.flatMap fun y hy => .cons (.inl rfl) (h y (.tail _ hy)))

/-- An escaped character leaves the scan inside of the string. -/
theorem run_escape (d : Nat) (c : Char) : (inside d).run (Json.escape c) = inside d := by
  have hhex : ∀ n < 16, Json.hexDigit n ≠ '"' ∧ Json.hexDigit n ≠ '\\' := by decide
  unfold Json.escape
  split
  · rfl
  · rfl
  · rfl
  · rfl
  · rfl
  · rfl
  · rfl
  · rename_i hquote hslash _ _ _ _ _
    split
    · rename_i hlow
      have hfirst := hhex (c.toNat / 16) (by omega)
      have hsecond := hhex (c.toNat % 16) (by omega)
      simp [step, hfirst, hsecond]
    · have hquote' : c ≠ '"' := hquote
      have hslash' : c ≠ '\\' := hslash
      simp [step, hquote', hslash']

theorem keeps_quoted (s : String) : Keeps (Json.quoted s) := by
  intro d
  have hinside : ∀ cs : List Char,
      (inside (d + 1)).run (cs.flatMap Json.escape) = inside (d + 1) := by
    intro cs
    induction cs with
    | nil => rfl
    | cons c cs ih => rw [List.flatMap_cons, run_append, run_escape, ih]
  have hopen : (outside (d + 1)).step '"' = inside (d + 1) := rfl
  rw [Json.quoted, List.cons_append, run_cons, hopen, run_append, hinside]
  rfl

theorem run_array {items : List Json} (h : ∀ v ∈ items, Keeps v.text) (d : Nat) :
    (outside d).run (Json.arr items).text = outside d := by
  have hopen : (outside d).step '[' = outside (d + 1) := by cases d <;> rfl
  rw [Json.text, List.cons_append, run_cons, hopen, run_append, Json.itemsText_eq,
    Keeps.joined h]
  rfl

/-- Within brackets, a scan of a value ends where it began. -/
theorem keeps_text {v : Json} (h : v.Proper) : Keeps v.text := by
  induction h with
  | null => exact .of_plain (Json.IsScalar.no_mark (v := .null) trivial).2
  | bool b => exact .of_plain (Json.IsScalar.no_mark (v := .bool b) trivial).2
  | @num n _ => exact .of_plain (Json.IsScalar.no_mark (v := .num n) trivial).2
  | str s => exact fun d => by rw [Json.text, keeps_quoted]
  | arr _ ih => exact fun d => run_array ih (d + 1)
  | @obj fields _ ih =>
    intro d
    have hfield : ∀ f ∈ fields, Keeps (Json.fieldText f) := fun f hf =>
      (keeps_quoted f.1).append (.cons (.inr (.inl rfl)) (ih f hf))
    have hopen : (outside (d + 1)).step '\x7b' = outside (d + 1) := rfl
    rw [Json.text, List.cons_append, run_cons, hopen, run_append, Json.fieldsText_eq,
      Keeps.joined hfield]
    rfl

/-! ### Scans in opposite phases -/

/-- Two scans of which one is inside of a string where the other one is outside, and the other way
round.  The second may be stuck. -/
inductive Opposite : Scan → Scan → Prop where
  | outside (d e : Nat) : Opposite (outside d) (inside e)
  | inside (d e : Nat) : Opposite (inside d) (outside e)
  | stuck (s : Scan) : Opposite s stuck

/-- Scans in opposite phases stay so: a quote moves both, and a backslash stops the one that is
outside of a string. -/
theorem Opposite.step {s t : Scan} (h : Opposite s t) {c : Char} (hc : s.step c ≠ .stuck) :
    Opposite (s.step c) (t.step c) := by
  cases h with
  | stuck => exact .stuck _
  | outside d e =>
    cases d with
    | zero =>
      by_cases hopen : c = '['
      · subst hopen
        exact .outside _ _
      · exact absurd (by simp [Scan.step, hopen]) hc
    | succ d =>
      by_cases hslash : c = '\\'
      · subst hslash
        exact absurd rfl hc
      by_cases hquote : c = '"'
      · subst hquote
        exact .inside _ _
      simp only [Scan.step, hslash, hquote, ↓reduceIte]
      split
      · exact .outside _ _
      split
      · exact .outside _ _
      · exact .outside _ _
  | inside d e =>
    by_cases hslash : c = '\\'
    · subst hslash
      cases e <;> exact .stuck _
    by_cases hquote : c = '"'
    · subst hquote
      cases e with
      | zero => exact .stuck _
      | succ e => exact .outside _ _
    cases e with
    | zero =>
      simp only [Scan.step, hslash, hquote, ↓reduceIte]
      split
      · exact .inside _ _
      · exact .stuck _
    | succ e =>
      simp only [Scan.step, hslash, hquote, ↓reduceIte]
      split
      · exact .inside _ _
      split
      · exact .inside _ _
      · exact .inside _ _

theorem Opposite.run {s t : Scan} (h : Opposite s t) {cs : List Char} (hs : s.run cs ≠ .stuck) :
    Opposite (s.run cs) (t.run cs) := by
  induction cs generalizing s t with
  | nil => exact h
  | cons c cs ih =>
    refine ih (h.step fun he => hs ?_) hs
    rw [run_cons, he, run_stuck]

/-- Behind a colon a scan is not outside of all brackets. -/
theorem step_colon (s : Scan) :
    s.step ':' = .stuck ∨ (∃ d, s.step ':' = .inside d) ∨ ∃ d, s.step ':' = .outside (d + 1) := by
  match s with
  | outside 0 => exact .inl rfl
  | outside (d + 1) => exact .inr (.inr ⟨d, rfl⟩)
  | inside d => exact .inr (.inl ⟨d, rfl⟩)
  | escaped d => exact .inr (.inl ⟨d, rfl⟩)
  | .stuck => exact .inl rfl

/-- No array ends in a colon and the text of another array. -/
theorem array_text_ne {vs ws : List Json} (hv : ∀ v ∈ vs, v.Proper) (hw : ∀ w ∈ ws, w.Proper)
    (cs : List Char) : (Json.arr vs).text ≠ cs ++ ':' :: (Json.arr ws).text := by
  intro he
  have hall := run_array (fun v h => keeps_text (hv v h)) 0
  have hend : ∀ d, (outside d).run (Json.arr ws).text = outside d :=
    run_array fun w h => keeps_text (hw w h)
  rw [he, run_append, run_cons] at hall
  rcases step_colon ((outside 0).run cs) with hs | ⟨d, hs⟩ | ⟨d, hs⟩
  · rw [hs, run_stuck] at hall
    cases hall
  · -- The last array would be read from inside a string.
    have hopp : Opposite ((outside 0).run (Json.arr ws).text) ((inside d).run (Json.arr ws).text) :=
      (Opposite.outside 0 d).run (by simp [hend])
    rw [hs] at hall
    rw [hend, hall] at hopp
    cases hopp
  · rw [hs, hend] at hall
    cases hall

end Scan

/-- The text of a subject tells the table and the key. -/
theorem Gate.textOf_injective {table table' : String} {key key' : List (String × Json)}
    (hk : ∀ e ∈ key, e.2.Proper) (hk' : ∀ e ∈ key', e.2.Proper)
    (h : textOf table key = textOf table' key') :
    table = table' ∧ key.map Prod.snd = key'.map Prod.snd := by
  have hp : ∀ v ∈ key.map Prod.snd, v.Proper := List.forall_mem_map.2 hk
  have hp' : ∀ v ∈ key'.map Prod.snd, v.Proper := List.forall_mem_map.2 hk'
  have hchars := congrArg String.toList h
  simp only [textOf, Json.compact, String.toList_append, String.toList_ofList, List.append_assoc,
    List.cons_append, List.nil_append, show ":".toList = [':'] from rfl] at hchars
  -- Were one name longer than the other, one key would end in the text of the other.
  have hcut : ∀ {vs ws : List Json}, (∀ v ∈ vs, v.Proper) → (∀ w ∈ ws, w.Proper) →
      ∀ cs, ':' :: (Json.arr vs).text = cs ++ ':' :: (Json.arr ws).text → cs = [] ∧ vs = ws := by
    intro vs ws hv hw cs he
    cases cs with
    | nil =>
      have harr := Json.text_injective (.arr hv) (.arr hw) (List.cons.inj he).2
      exact ⟨rfl, Json.arr.inj harr⟩
    | cons c cs => exact absurd (List.cons.inj he).2 (Scan.array_text_ne hv hw cs)
  rcases List.append_eq_append_iff.1 hchars with ⟨cs, hname, hrest⟩ | ⟨cs, hname, hrest⟩
  · obtain ⟨rfl, hkeys⟩ := hcut hp hp' cs hrest
    exact ⟨String.toList_injective (by simpa using hname.symm), hkeys⟩
  · obtain ⟨rfl, hkeys⟩ := hcut hp' hp cs hrest
    exact ⟨String.toList_injective (by simpa using hname), hkeys.symm⟩

/-- Two subjects are recorded under one text exactly if they are subjects of one table and give the
same values for its key. -/
theorem Gate.subjectKey_eq_iff {g : Gate} {table table' : String} {t t' : Table} {x x' : Subject}
    {key key' : List (String × Json)} (ht : g.schema.table? table = some t)
    (ht' : g.schema.table? table' = some t') (hx : x.keyValues t = .ok key)
    (hx' : x'.keyValues t' = .ok key') (hk : ∀ e ∈ key, e.2.Proper)
    (hk' : ∀ e ∈ key', e.2.Proper) :
    (∃ text, g.subjectKey table x = .ok text ∧ g.subjectKey table' x' = .ok text) ↔
      table = table' ∧ key.map Prod.snd = key'.map Prod.snd := by
  rw [subjectKey_of_key ht hx, subjectKey_of_key ht' hx']
  constructor
  · rintro ⟨text, htext, htext'⟩
    exact textOf_injective hk hk' ((Except.ok.inj htext).trans (Except.ok.inj htext').symm)
  · rintro ⟨rfl, hvalues⟩
    refine ⟨textOf table key, rfl, ?_⟩
    rw [textOf, textOf, hvalues]

/-! A table whose name is that of another one, a colon and the text of a key. -/
namespace BracketedNames

def gate : Gate := ⟨.server, (Schema.empty.addTable
  ⟨"note", [⟨"id", .string, false, none⟩], ["id"]⟩).addTable
  ⟨"note:[\"a\"]", [⟨"id", .string, false, none⟩], ["id"]⟩, false⟩

/-- A note whose id looks like the end of one key and the beginning of another. -/
def broken : Subject := .id (.str "a\"]:[\"b")

def plain : Subject := .id (.str "b")

end BracketedNames

open BracketedNames in
theorem Gate.subjectKey_eq_iff_of_brackets :
    gate.subjectKey "note:[\"a\"]" plain = .ok "note:[\"a\"]:[\"b\"]" ∧
    ¬ ∃ text, gate.subjectKey "note" broken = .ok text ∧
      gate.subjectKey "note:[\"a\"]" plain = .ok text := by
  have hproper : ∀ s, ∀ e ∈ [("id", Json.str s)], e.2.Proper := by simp [Json.Proper.str]
  have h := @subjectKey_eq_iff gate "note" "note:[\"a\"]" _ _ broken plain _ _ rfl rfl rfl rfl
    (hproper _) (hproper _)
  exact ⟨rfl, fun hsame => absurd (h.1 hsame).1 (by decide)⟩

end RowGuard
