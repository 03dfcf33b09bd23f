import RowGuard.Proofs.Number.Text
import RowGuard.Json.Printer
import RowGuard.Json.Reader

/-! # The compact text and its value

The compact text of a value tells which value it is, also where more text follows, as long as that
begins with a comma or a closing bracket, as it does inside an array or an object.
-/
namespace RowGuard.Json

/-- Every number in the value is proper. -/
inductive Proper : Json → Prop where
  | null : Proper .null
  | bool (b : Bool) : Proper (.bool b)
  | num {n : Number} (h : n.Proper) : Proper (.num n)
  | str (s : String) : Proper (.str s)
  | arr {items : List Json} (h : ∀ v ∈ items, Proper v) : Proper (.arr items)
  | obj {fields : List (String × Json)} (h : ∀ f ∈ fields, Proper f.2) : Proper (.obj fields)

/-! ### What is read is proper -/

theorem proper_ofRow {fs : List (String × Json)} (h : ∀ f ∈ fs, f.2.Proper) :
    (ofRow (.ofList fs)).Proper := .obj fun f hf => h f (Dict.mem_of_mem_ofList hf)

theorem proper_of_map {α : Type} {o : Option α} {f : α → Json × List Char} {v : Json}
    {r : List Char} (h : o.map f = some (v, r)) (hf : ∀ a, o = some a → (f a).1.Proper) :
    v.Proper := by
  obtain ⟨a, ha, he⟩ := Option.map_eq_some_iff.1 h
  have hp := hf a ha
  rwa [he] at hp

theorem proper_of_readNumber {b : Bool} {s : List Char} :
    ∀ p, readNumber? b s = some p → (num p.1).Proper := by
  rintro ⟨n, r⟩ h
  simp only [readNumber?, Option.bind_eq_bind, Option.bind_eq_some_iff, Prod.exists] at h
  obtain ⟨_, _, -, _, _, -, _, _, -, m, hm, he⟩ := h
  cases he
  exact .num (Number.ofLiteral_proper hm)

/-- Every value that is read is proper. -/
theorem proper_of_read (fuel : Nat) :
    (∀ depth s v r, readValue? fuel depth s = some (v, r) → v.Proper) ∧
    (∀ depth s vs r, readItems? fuel depth s = some (vs, r) → ∀ v ∈ vs, v.Proper) ∧
    ∀ depth s fs r, readFields? fuel depth s = some (fs, r) → ∀ f ∈ fs, f.2.Proper := by
  induction fuel with
  | zero => exact ⟨fun _ _ _ _ h => (nomatch h), fun _ _ _ _ h => (nomatch h),
      fun _ _ _ _ h => (nomatch h)⟩
  | succ fuel ih =>
    obtain ⟨hvalue, hitems, hfields⟩ := ih
    refine ⟨fun depth s v r h => ?_, fun depth s vs r h => ?_, fun depth s fs r h => ?_⟩
    · rw [readValue?] at h
      split at h
      · exact proper_of_map h fun _ _ => .null
      · exact proper_of_map h fun _ _ => .bool true
      · exact proper_of_map h fun _ _ => .bool false
      · exact proper_of_map h fun _ _ => .str _
      · exact proper_of_map h proper_of_readNumber
      · split at h
        · cases h
        split at h
        · cases h
          exact .arr (List.forall_mem_nil _)
        · exact proper_of_map h fun p hread => .arr (hitems _ _ p.1 p.2 hread)
      · split at h
        · cases h
        split at h
        · cases h
          exact .obj (List.forall_mem_nil _)
        · exact proper_of_map h fun p hread => proper_ofRow (hfields _ _ p.1 p.2 hread)
      · exact proper_of_map h proper_of_readNumber
    · simp only [readItems?, Option.bind_eq_bind, Option.bind_eq_some_iff, Prod.exists] at h
      obtain ⟨v, t, hread, h⟩ := h
      have hv := hvalue _ _ _ _ hread
      split at h
      · cases h
        simpa using hv
      · obtain ⟨⟨vs', t'⟩, hrest, he⟩ := Option.bind_eq_some_iff.1 h
        cases he
        exact List.forall_mem_cons.2 ⟨hv, hitems _ _ _ _ hrest⟩
      · cases h
    · rw [readFields?] at h
      split at h
      · simp only [Option.bind_eq_bind, Option.bind_eq_some_iff, Prod.exists] at h
        obtain ⟨name, t, -, h⟩ := h
        split at h
        · obtain ⟨⟨v, t'⟩, hread, h⟩ := Option.bind_eq_some_iff.1 h
          have hv := hvalue _ _ _ _ hread
          simp only at h
          split at h
          · cases h
            simpa using hv
          · obtain ⟨⟨fs', t'⟩, hrest, he⟩ := Option.bind_eq_some_iff.1 h
            cases he
            exact List.forall_mem_cons.2 ⟨hv, hfields _ _ _ _ hrest⟩
          · cases h
        · cases h
      · cases h

/-- A document that is read is proper. -/
theorem parse?_proper {text : String} {v : Json} (h : parse? text = some v) : v.Proper := by
  simp only [parse?] at h
  split at h
  · rename_i hread
    split at h <;> cases h
    exact (proper_of_read _).1 _ _ _ _ hread
  · cases h

/-! ### Strings -/

/-- A written character is read back. -/
theorem readString?_escape (fuel : Nat) (acc : List Char) (c : Char) (s : List Char) :
    readString? (fuel + 1) acc (escape c ++ s) = readString? fuel (c :: acc) s := by
  have hhex : ∀ n < 16, hexValue? (hexDigit n) = some n := by decide
  unfold escape
  split
  · rfl
  · rfl
  · rfl
  · rfl
  · rfl
  · rfl
  · rfl
  · rename_i hquote hslash _ _ _ _ _
    split
    · rename_i hlow
      have hzero : hexValue? '0' = some 0 := rfl
      have hfirst := hhex (c.toNat / 16) (by omega)
      have hsecond := hhex (c.toNat % 16) (by omega)
      have hunit : readUnit? ('0' :: '0' :: hexDigit (c.toNat / 16) :: hexDigit (c.toNat % 16) :: s)
          = some (c.toNat, s) := by
        simp only [readUnit?, hzero, hfirst, hsecond, Option.bind_eq_bind, Option.bind_some,
          Option.some.injEq, Prod.mk.injEq, and_true]
        omega
      have hleading : ¬ (0xD800 ≤ c.toNat ∧ c.toNat < 0xDC00) := by omega
      have htrailing : ¬ (0xDC00 ≤ c.toNat ∧ c.toNat < 0xE000) := by omega
      simp only [List.cons_append, List.nil_append, readString?, readEscape?, readEscapedPoint?,
        hunit, Option.bind_eq_bind, Option.bind_some, hleading, htrailing, ↓reduceIte,
        Char.ofNat_toNat]
    · rename_i hlow
      rw [List.singleton_append, readString?]
      · rw [if_neg hlow]
      · exact hquote
      · exact hslash

/-- A written string is read back, whatever follows it. -/
theorem readString?_escaped (cs : List Char) : ∀ (fuel : Nat) (acc r : List Char),
    cs.length < fuel →
    readString? fuel acc (cs.flatMap escape ++ '"' :: r) =
      some (String.ofList (acc.reverse ++ cs), r) := by
  induction cs with
  | nil =>
    intro fuel acc r h
    obtain ⟨fuel, rfl⟩ := Nat.exists_eq_succ_of_ne_zero (Nat.ne_zero_of_lt h)
    simp [readString?]
  | cons c cs ih =>
    intro fuel acc r h
    obtain ⟨fuel, rfl⟩ := Nat.exists_eq_succ_of_ne_zero (Nat.ne_zero_of_lt h)
    have hfuel := Nat.lt_of_succ_lt_succ h
    rw [List.flatMap_cons, List.append_assoc, readString?_escape, ih _ _ _ hfuel]
    simp

/-- The text of a string tells which string it is, whatever follows it. -/
theorem quoted_cancel {s t : String} {q r : List Char} (h : quoted s ++ q = quoted t ++ r) :
    s = t ∧ q = r := by
  have hread : ∀ (s : String) (q : List Char) (n : Nat), s.toList.length < n →
      readString? n [] (s.toList.flatMap escape ++ '"' :: q) = some (s, q) := by
    intro s q n hn
    simpa using readString?_escaped s.toList n [] q hn
  simp only [quoted, List.cons_append, List.append_assoc, List.nil_append, List.cons.injEq,
    true_and] at h
  have hs := hread s q (s.toList.length + t.toList.length + 1) (by omega)
  rw [h, hread t r _ (by omega)] at hs
  cases hs
  exact ⟨rfl, rfl⟩

/-! ### Lists of texts -/

/-- What may follow the text of a value: nothing, a comma, or a closing bracket. -/
def Ends (r : List Char) : Prop := ∀ c ∈ r.head?, c = ',' ∨ c = ']' ∨ c = '\x7d'

theorem Ends.nil : Ends [] := fun _ h => nomatch h

theorem Ends.cons {c : Char} (h : c = ',' ∨ c = ']' ∨ c = '\x7d') (r : List Char) : Ends (c :: r) :=
  fun _ hd => Option.some.inj hd ▸ h

/-- Texts with commas between them. -/
def joined {α : Type} (f : α → List Char) : List α → List Char
  | [] => []
  | x :: xs => f x ++ xs.flatMap fun y => ',' :: f y

def fieldText (e : String × Json) : List Char := quoted e.1 ++ ':' :: e.2.text

theorem itemsText_eq (xs : List Json) : itemsText xs = joined text xs := by
  induction xs with
  | nil => rfl
  | cons x xs ih =>
    cases xs with
    | nil => simp [itemsText, joined]
    | cons y ys => rw [itemsText, ih]; simp [joined]

theorem fieldsText_eq (fs : List (String × Json)) : fieldsText fs = joined fieldText fs := by
  induction fs with
  | nil => rfl
  | cons f fs ih =>
    cases fs with
    | nil => simp [fieldsText, joined, fieldText]
    | cons g gs => rw [fieldsText, ih]; simp [joined, fieldText]

section Joined
variable {α : Type} {f : α → List Char} {P : α → Prop} {close : Char} {xs ys : List α}
  {r s : List Char}

/-- If texts can be told apart, so can texts that each have a comma in front, up to a bracket. -/
theorem flatMap_cancel (hclose : close = ']' ∨ close = '\x7d')
    (hx : ∀ x ∈ xs, ∀ {y r s}, P y → Ends r → Ends s → f x ++ r = f y ++ s → x = y ∧ r = s)
    (hy : ∀ y ∈ ys, P y)
    (h : (xs.flatMap fun x => ',' :: f x) ++ close :: r =
      (ys.flatMap fun y => ',' :: f y) ++ close :: s) : xs = ys ∧ r = s := by
  have hcomma : close ≠ ',' := by rcases hclose with rfl | rfl <;> decide
  have hends : ∀ (zs : List α) (r : List Char),
      Ends ((zs.flatMap fun z => ',' :: f z) ++ close :: r) := by
    intro zs r
    cases zs with
    | nil => exact .cons (.inr hclose) r
    | cons z zs => exact .cons (.inl rfl) _
  induction xs generalizing ys with
  | nil =>
    cases ys with
    | nil => exact ⟨rfl, (List.cons.inj h).2⟩
    | cons y ys => exact absurd (List.cons.inj h).1 hcomma
  | cons x xs ih =>
    cases ys with
    | nil => exact absurd (List.cons.inj h).1.symm hcomma
    | cons y ys =>
      simp only [List.flatMap_cons, List.cons_append, List.append_assoc, List.cons.injEq,
        true_and] at h
      obtain ⟨rfl, hrest⟩ := hx x List.mem_cons_self (hy y List.mem_cons_self) (hends _ _)
        (hends _ _) h
      obtain ⟨rfl, rfl⟩ := ih (fun z hz => hx z (.tail _ hz)) (fun z hz => hy z (.tail _ hz)) hrest
      exact ⟨rfl, rfl⟩

/-- If texts can be told apart, so can lists of them up to a bracket. -/
theorem joined_cancel (hclose : close = ']' ∨ close = '\x7d')
    (hx : ∀ x ∈ xs, ∀ {y r s}, P y → Ends r → Ends s → f x ++ r = f y ++ s → x = y ∧ r = s)
    (hy : ∀ y ∈ ys, P y) (hhead : ∀ x r, f x ≠ close :: r) (hne : ∀ x, f x ≠ [])
    (h : joined f xs ++ close :: r = joined f ys ++ close :: s) : xs = ys ∧ r = s := by
  have hfirst : ∀ (x : α) (r s : List Char), f x ++ r ≠ close :: s := by
    intro x r s he
    cases hfx : f x with
    | nil => exact hne x hfx
    | cons c cs =>
      rw [hfx] at he
      exact hhead x cs (by rw [hfx, (List.cons.inj he).1])
  match xs, ys with
  | [], [] => exact ⟨rfl, (List.cons.inj h).2⟩
  | [], y :: ys =>
    simp only [joined, List.append_assoc] at h
    exact absurd h.symm (hfirst _ _ _)
  | x :: xs, [] =>
    simp only [joined, List.append_assoc] at h
    exact absurd h (hfirst _ _ _)
  | x :: xs, y :: ys =>
    refine flatMap_cancel hclose hx hy ?_
    simpa [joined] using h

end Joined

/-! ### Values -/

/-- The characters that stand in a compact text for its structure. -/
def isMark (c : Char) : Bool := ['"', '\\', '[', ']', '\x7b', '\x7d', ',', ':'].contains c

/-- The values that are a single word or number. -/
def IsScalar : Json → Prop
  | .null | .bool _ | .num _ => True
  | _ => False

/-- A scalar is written without marks. -/
theorem IsScalar.no_mark {v : Json} (h : v.IsScalar) :
    v.text ≠ [] ∧ ∀ c ∈ v.text, isMark c = false := by
  match v, h with
  | .null, _ => simp [text, isMark]
  | .bool true, _ => simp [text, isMark]
  | .bool false, _ => simp [text, isMark]
  | .num n, _ =>
    obtain ⟨c, r, hcons, -⟩ := n.text_head
    have htext : (num n).text = n.text := by rw [text]
    refine ⟨by simp [htext, hcons], fun c hc => ?_⟩
    have hnum := n.numeral_of_mem_text c (htext ▸ hc)
    by_contra hmark
    simp only [isMark, List.contains_cons, List.contains_nil, Bool.or_false, Bool.not_eq_false,
      Bool.or_eq_true, beq_iff_eq] at hmark
    rcases hmark with rfl | rfl | rfl | rfl | rfl | rfl | rfl | rfl <;> cases hnum

/-- Every other value begins with a mark that tells its kind. -/
theorem text_mark {v : Json} (h : ¬ v.IsScalar) : ∃ c r, v.text = c :: r ∧ isMark c = true ∧
    c ≠ ']' ∧ c ≠ '\x7d' := by
  cases v with
  | null | bool _ | num _ => exact absurd trivial h
  | str s => exact ⟨'"', _, by rw [text, quoted, List.cons_append], rfl, by decide, by decide⟩
  | arr xs => exact ⟨'[', _, by rw [text, List.cons_append], rfl, by decide, by decide⟩
  | obj fs => exact ⟨'\x7b', _, by rw [text, List.cons_append], rfl, by decide, by decide⟩

theorem IsScalar.text_injective {v w : Json} (hv : v.IsScalar) (hw : w.IsScalar) (pv : v.Proper)
    (pw : w.Proper) (h : v.text = w.text) : v = w := by
  have hword : ∀ (n : Number) (c : Char) (r : List Char), Number.isNumeral c = false →
      (num n).text ≠ c :: r := by
    intro n c r hc he
    rw [text] at he
    have hnum := n.numeral_of_mem_text c (he ▸ List.mem_cons_self)
    rw [hc] at hnum
    cases hnum
  match v, w, hv, hw with
  | .num m, .num n, _, _ =>
    cases pv with
    | num hm => cases pw with
      | num hn => rw [Number.text_injective hm hn (by simpa only [text] using h)]
  | .num m, .null, _, _ => exact absurd h (hword _ _ _ rfl)
  | .num m, .bool true, _, _ => exact absurd h (hword _ _ _ rfl)
  | .num m, .bool false, _, _ => exact absurd h (hword _ _ _ rfl)
  | .null, .num n, _, _ => exact absurd h.symm (hword _ _ _ rfl)
  | .bool true, .num n, _, _ => exact absurd h.symm (hword _ _ _ rfl)
  | .bool false, .num n, _, _ => exact absurd h.symm (hword _ _ _ rfl)
  | .null, .null, _, _ => rfl
  | .bool true, .bool true, _, _ => rfl
  | .bool false, .bool false, _, _ => rfl
  | .null, .bool true, _, _ | .null, .bool false, _, _ | .bool true, .null, _, _
  | .bool true, .bool false, _, _ | .bool false, .null, _, _ | .bool false, .bool true, _, _ =>
    exact absurd h (by decide)

/-- A scalar is told by its text from whatever other value. -/
theorem IsScalar.text_cancel {v w : Json} {r s : List Char} (hv : v.IsScalar) (pv : v.Proper)
    (pw : w.Proper) (hr : Ends r) (hs : Ends s) (h : v.text ++ r = w.text ++ s) :
    v = w ∧ r = s := by
  obtain ⟨hne, hplain⟩ := hv.no_mark
  by_cases hw : w.IsScalar
  · -- The text of a scalar goes as far as the next mark.
    have hspan : ∀ {t : List Char} {r : List Char}, (∀ c ∈ t, isMark c = false) → Ends r →
        (t ++ r).takeWhile (isMark · = false) = t ∧ (t ++ r).dropWhile (isMark · = false) = r := by
      intro t r ht hr
      have ht' : ∀ c ∈ t, decide (isMark c = false) = true := fun c hc => decide_eq_true (ht c hc)
      rw [List.takeWhile_append_of_pos ht', List.dropWhile_append_of_pos ht']
      cases r with
      | nil => simp
      | cons c r => rcases hr c rfl with rfl | rfl | rfl <;> simp [isMark]
    obtain ⟨hv₁, hv₂⟩ := hspan hplain hr
    obtain ⟨hw₁, hw₂⟩ := hspan hw.no_mark.2 hs
    rw [h] at hv₁ hv₂
    exact ⟨hv.text_injective hw pv pw (hv₁.symm.trans hw₁), hv₂.symm.trans hw₂⟩
  · obtain ⟨c, t, ht, hmark, -⟩ := text_mark hw
    obtain ⟨d, t', ht'⟩ := List.exists_cons_of_ne_nil hne
    rw [ht, ht'] at h
    have hd := hplain d (by simp [ht'])
    rw [(List.cons.inj h).1, hmark] at hd
    cases hd

theorem text_head (v : Json) : v.text ≠ [] ∧ ∀ c r, v.text = c :: r → c ≠ ']' ∧ c ≠ '\x7d' := by
  by_cases hv : v.IsScalar
  · obtain ⟨hne, hplain⟩ := hv.no_mark
    refine ⟨hne, fun c r h => ?_⟩
    have hc := hplain c (by simp [h])
    constructor <;> rintro rfl <;> cases hc
  · obtain ⟨c, r, h, -, hc⟩ := text_mark hv
    refine ⟨by simp [h], fun d s hd => ?_⟩
    rw [h] at hd
    exact (List.cons.inj hd).1 ▸ hc

theorem IsScalar.text_cancel_right {v w : Json} {r s : List Char} (hw : w.IsScalar)
    (pv : v.Proper) (pw : w.Proper) (hr : Ends r) (hs : Ends s) (h : v.text ++ r = w.text ++ s) :
    v = w ∧ r = s := by
  obtain ⟨rfl, rfl⟩ := hw.text_cancel pw pv hs hr h.symm
  exact ⟨rfl, rfl⟩

theorem fieldText_cancel {e f : String × Json} {r s : List Char}
    (hvalue : e.2.text ++ r = f.2.text ++ s → e.2 = f.2 ∧ r = s)
    (h : fieldText e ++ r = fieldText f ++ s) : e = f ∧ r = s := by
  simp only [fieldText, List.append_assoc, List.cons_append] at h
  obtain ⟨hname, hrest⟩ := quoted_cancel h
  obtain ⟨hv, rfl⟩ := hvalue (List.cons.inj hrest).2
  exact ⟨Prod.ext hname hv, rfl⟩

/-- The text of a value tells which value it is, and where it ends. -/
theorem text_cancel {v w : Json} {r s : List Char} (pv : v.Proper) (pw : w.Proper) (hr : Ends r)
    (hs : Ends s) (h : v.text ++ r = w.text ++ s) : v = w ∧ r = s := by
  induction pv generalizing w r s with
  | null => exact IsScalar.text_cancel trivial .null pw hr hs h
  | bool b => exact IsScalar.text_cancel trivial (.bool b) pw hr hs h
  | num hn => exact IsScalar.text_cancel trivial (.num hn) pw hr hs h
  | str a =>
    by_cases hw : w.IsScalar
    · exact hw.text_cancel_right (.str a) pw hr hs h
    cases pw with
    | null | bool _ | num _ => exact absurd trivial hw
    | str b =>
      simp only [text] at h
      obtain ⟨rfl, rfl⟩ := quoted_cancel h
      exact ⟨rfl, rfl⟩
    | arr _ | obj _ => simp [text, quoted] at h
  | arr hitems ih =>
    by_cases hw : w.IsScalar
    · exact hw.text_cancel_right (.arr hitems) pw hr hs h
    cases pw with
    | null | bool _ | num _ => exact absurd trivial hw
    | str _ | obj _ => simp [text, quoted] at h
    | arr hitems' =>
      simp only [text, itemsText_eq, List.cons_append, List.append_assoc, List.nil_append,
        List.cons.injEq, true_and] at h
      obtain ⟨rfl, rfl⟩ := joined_cancel (P := Proper) (.inl rfl) ih hitems'
        (fun v r he => ((text_head v).2 _ _ he).1 rfl) (fun v => (text_head v).1) h
      exact ⟨rfl, rfl⟩
  | obj hfields ih =>
    by_cases hw : w.IsScalar
    · exact hw.text_cancel_right (.obj hfields) pw hr hs h
    cases pw with
    | null | bool _ | num _ => exact absurd trivial hw
    | str _ | arr _ => simp [text, quoted] at h
    | obj hfields' =>
      simp only [text, fieldsText_eq, List.cons_append, List.append_assoc, List.nil_append,
        List.cons.injEq, true_and] at h
      obtain ⟨rfl, rfl⟩ := joined_cancel (P := fun f => Proper f.2) (.inr rfl)
        (fun e he {f r s} hf hr hs => fieldText_cancel (ih e he hf hr hs)) hfields'
        (fun e r he => by simp [fieldText, quoted] at he) (fun e => by simp [fieldText, quoted]) h
      exact ⟨rfl, rfl⟩

/-- Two values have one text only if they are one value. -/
theorem text_injective {v w : Json} (pv : v.Proper) (pw : w.Proper) (h : v.text = w.text) : v = w :=
  (text_cancel pv pw .nil .nil (by rw [h])).1

end RowGuard.Json
