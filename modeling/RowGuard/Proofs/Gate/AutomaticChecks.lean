import RowGuard.Proofs.Schedule.GateCalls
import RowGuard.Mutation.Model

/-! # The course of a guarded write

A guarded write is its body and its automatic check, one after the other.  So its course is made of
the course of the body, whatever the body does, and of the moves of the check: nothing but a look at
the record and, unless the record covers the subject, one call of the gate.
-/
namespace RowGuard

namespace Strand.Course
variable {app : Application} {cs : List GateCall} {p p' : Post} {i : Invocation} {table : String}
  {w : Where} {x : Subject} {custom : Option Body} {args : Json} {r : Outcome Unit}

/-- The automatic check on the server is one call of the gate, unless the record covers the
subject. -/
theorem of_automaticCheck (hs : i.environment = .server)
    (h : Course app ⟨p, .running (automaticCheck table w x i)⟩ cs ⟨p', .running (.done r)⟩) :
    (p.checked.covers i.gate table x = true ∧ cs = [] ∧ r = .ok ()) ∨
      p.checked.covers i.gate table x = false ∧ ∃ site : Site,
        cs = [site.gateCall p i.gate w x] ∧ r = (site.can p i.gate w x).1 ∧
          p' = (site.can p i.gate w x).2.1 := by
  simp only [automaticCheck, hs] at h
  obtain ⟨site, rest, rfl, h⟩ := of_ask h
  have hcalls : gateCalls site (⟨p, .running (.ask .checked fun c =>
      (if c.covers i.gate table x then .done (.ok ())
        else .request (.can i.gate w x) : Program (Outcome Unit)))⟩ : Strand (Outcome Unit)) = [] :=
    rfl
  cases hc : p.checked.covers i.gate table x with
  | true =>
    have hc' : (Checked.covers (site.answer p .checked).1 i.gate table x) = true := hc
    simp only [Program.bind, hc', ↓reduceIte] at h
    obtain ⟨rfl, hk⟩ := of_done h
    obtain ⟨-, hr⟩ := Strand.mk.inj hk
    exact .inl ⟨rfl, rfl, Program.done.inj (Standing.running.inj hr)⟩
  | false =>
    have hc' : (Checked.covers (site.answer p .checked).1 i.gate table x) = false := hc
    simp only [Program.bind, hc', Bool.false_eq_true, ↓reduceIte, Program.request] at h
    obtain ⟨site', rest', rfl, hlast⟩ := of_ask h
    obtain ⟨rfl, hk⟩ := of_done hlast
    obtain ⟨hp, hr⟩ := Strand.mk.inj hk
    exact .inr ⟨rfl, site', rfl, Program.done.inj (Standing.running.inj hr), hp⟩

/-- A guarded insert runs its body first, and then, if the body has succeeded, the check. -/
theorem of_guardedInsert (h : Course app
      ⟨p, .running (guardedWrite table w .insert custom i args)⟩ cs ⟨p', .running (.done r)⟩) :
    (∃ e, r = .error e ∧ Course app ⟨p, .running ((custom.getD (writeRow table .insert)) i args)⟩ cs
        ⟨p', .running (.done (.error e))⟩) ∨
      ∃ own check p₁, cs = own ++ check ∧
        Course app ⟨p, .running ((custom.getD (writeRow table .insert)) i args)⟩ own
          ⟨p₁, .running (.done (.ok ()))⟩ ∧
        Course app ⟨p₁, .running (automaticCheck table w (.ofJson args) i)⟩ check
          ⟨p', .running (.done r)⟩ := by
  rcases of_andThen_done h with hfail | ⟨own, check, p₁, u, hcs, hown, hcheck⟩
  · exact .inl hfail
  · exact .inr ⟨own, check, p₁, hcs, hown, hcheck⟩

/-- Any other guarded write runs the check first, and then, if the check has passed, its body. -/
theorem of_guardedWrite {a : Action} (ha : a ≠ .insert) (h : Course app
      ⟨p, .running (guardedWrite table w a custom i args)⟩ cs ⟨p', .running (.done r)⟩) :
    (∃ e, r = .error e ∧ Course app ⟨p, .running (automaticCheck table w (.ofJson args) i)⟩ cs
        ⟨p', .running (.done (.error e))⟩) ∨
      ∃ check own p₁, cs = check ++ own ∧
        Course app ⟨p, .running (automaticCheck table w (.ofJson args) i)⟩ check
          ⟨p₁, .running (.done (.ok ()))⟩ ∧
        Course app ⟨p₁, .running ((custom.getD (writeRow table a)) i args)⟩ own
          ⟨p', .running (.done r)⟩ := by
  have hprogram : guardedWrite table w a custom i args =
      (automaticCheck table w (.ofJson args) i).andThen fun _ =>
        (custom.getD (writeRow table a)) i args := by
    cases a with
    | insert => exact absurd rfl ha
    | upsert | update | delete => rfl
  rw [hprogram] at h
  rcases of_andThen_done h with hfail | ⟨check, own, p₁, u, hcs, hcheck, hown⟩
  · exact .inl hfail
  · exact .inr ⟨check, own, p₁, hcs, hcheck, hown⟩

end Strand.Course
end RowGuard
