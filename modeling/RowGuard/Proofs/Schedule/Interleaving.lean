import RowGuard.Schedule.Segment
import Mathlib.Data.List.Forall2
import Mathlib.Logic.Relation

/-! # Programs in any interleaving

Main programs and background tasks share a site.  One step is a single request, or the begin or end
of a wait, of any one of them; nothing is said about who comes next.  A call may run out of time at
any moment, and the clock of the site may move at any moment, so that every timing is among the
runs.
-/
namespace RowGuard

/-- How a program stands between two steps. -/
inductive Standing (α : Type) where
  | running (p : Program α)
  /-- Waiting for a task, with the failure if that takes too long. -/
  | waiting (task : Nat) (overrun : Option Failure) (next : Outcome Unit → Program α)

/-- A program under way, with what belongs to it alone. -/
structure Strand (α : Type) where
  post : Post
  standing : Standing α

def Strand.result? {α : Type} (k : Strand α) : Option α :=
  match k.standing with
  | .running (.done a) => some a
  | _ => none

/-- Background tasks, each under the number of tasks started before it. -/
abbrev Tasks := List (Strand (Outcome Unit))

def Call.strand (app : Application) (c : Call) : Strand (Outcome Unit) :=
  ⟨.ofInvocation c.invocation, .running (app.program c)⟩

def Job.strand (app : Application) : Job → Strand (Outcome Unit)
  | .perform work => ⟨.outside, .running ((Program.perform false work).bind fun _ => .done (.ok ()))⟩
  | .mutation c => c.strand app

/-- What a strand may do next at a site and beside some tasks: the site and the strand afterwards,
and the tasks that it has started. -/
inductive Strand.Move {α : Type} (app : Application) (ts : Tasks) :
    Site → Strand α → Site → Strand α → Tasks → Prop where
  | ask (site : Site) (post : Post) (r : Request) (next : r.Reply → Program α) :
      Move app ts site ⟨post, .running (.ask r next)⟩
        { (site.answer post r).2.2 with outbox := [] }
        ⟨(site.answer post r).2.1, .running (next (site.answer post r).1)⟩
        ((site.answer post r).2.2.outbox.map (Job.strand app))
  | sleep (site : Site) (post : Post) (ms : Nat) (next : Program α) :
      Move app ts site ⟨post, .running (.sleep ms next)⟩ site ⟨post, .running next⟩ []
  | begin {site site' : Site} {d : Nat} {r : Outcome TxRef} (hb : site.begin? d = some (r, site'))
      (post : Post) (next : Outcome TxRef → Program α) :
      Move app ts site ⟨post, .running (.begin d next)⟩ site' ⟨post, .running (next r)⟩ []
  | call (site : Site) (post : Post) {c : Call} (hc : app.mutators.contains c.name = true)
      (next : Outcome Unit → Program α) :
      Move app ts site ⟨post, .running (.call c next)⟩ site
        ⟨post, .waiting ts.length (some (app.overrun c.name)) next⟩ [c.strand app]
  | unknown (site : Site) (post : Post) {c : Call} (hc : app.mutators.contains c.name = false)
      (next : Outcome Unit → Program α) :
      Move app ts site ⟨post, .running (.call c next)⟩ site
        ⟨post, .running (next (.error (Application.unknown c.name)))⟩ []
  | stepAside (site : Site) (post : Post) (next : Program α) :
      Move app ts site ⟨post, .running (.stepAside next)⟩ site
        ⟨post, .waiting ts.length none fun _ => next⟩ [⟨.outside, .running (.done (.ok ()))⟩]
  | deliver {t : Nat} {k : Strand (Outcome Unit)} (ht : ts[t]? = some k) {r : Outcome Unit}
      (hr : k.result? = some r) (site : Site) (post : Post) (overrun : Option Failure)
      (next : Outcome Unit → Program α) :
      Move app ts site ⟨post, .waiting t overrun next⟩ site ⟨post, .running (next r)⟩ []
  | expire (site : Site) (post : Post) (t : Nat) (e : Failure) (next : Outcome Unit → Program α) :
      Move app ts site ⟨post, .waiting t (some e) next⟩ site ⟨post, .running (next (.error e))⟩ []

/-- Main programs and tasks at a site. -/
structure Scene (α : Type) where
  site : Site
  mains : List (Strand α)
  tasks : Tasks

namespace Scene
variable {α : Type}

/-- Main programs that have not begun, at a site without tasks. -/
def start (site : Site) (mains : List (Strand α)) : Scene α := ⟨site, mains, []⟩

/-- The results of the main programs, once all are finished. -/
def results? (c : Scene α) : Option (List α) := c.mains.mapM Strand.result?

theorem results?_eq_some_iff {c : Scene α} {rs : List α} :
    c.results? = some rs ↔ List.Forall₂ (fun k a => k.result? = some a) c.mains rs := by
  unfold results?
  generalize c.mains = ks
  induction ks generalizing rs with
  | nil =>
    rw [List.mapM_nil, List.forall₂_nil_left_iff]
    exact ⟨fun h => (Option.some.inj h).symm, fun h => h ▸ rfl⟩
  | cons k ks ih =>
    rw [List.mapM_cons, List.forall₂_cons_left_iff]
    cases hk : k.result? with
    | none => simp
    | some a =>
      cases hm : ks.mapM Strand.result? with
      | none =>
        refine iff_of_false (by simp) ?_
        rintro ⟨b, bs, -, hbs, -⟩
        rw [← ih, hm] at hbs
        cases hbs
      | some as =>
        constructor
        · intro h
          exact ⟨a, as, rfl, ih.1 hm, (Option.some.inj h).symm⟩
        · rintro ⟨b, bs, hb, hbs, rfl⟩
          rw [← ih, hm] at hbs
          obtain rfl := Option.some.inj hb
          obtain rfl := Option.some.inj hbs
          rfl

/-- Main programs that are all finished have their results. -/
theorem exists_results? {c : Scene α} (hf : ∀ k ∈ c.mains, ∃ a, k.result? = some a) :
    ∃ rs, c.results? = some rs := by
  have hall : ∀ ks : List (Strand α), (∀ k ∈ ks, ∃ a, k.result? = some a) →
      ∃ rs, List.Forall₂ (fun k a => k.result? = some a) ks rs := by
    intro ks
    induction ks with
    | nil => exact fun _ => ⟨[], .nil⟩
    | cons k ks ih =>
      intro h
      obtain ⟨a, ha⟩ := h k List.mem_cons_self
      obtain ⟨rs, hrs⟩ := ih fun x hx => h x (List.mem_cons_of_mem k hx)
      exact ⟨a :: rs, .cons ha hrs⟩
  obtain ⟨rs, hrs⟩ := hall c.mains hf
  exact ⟨rs, results?_eq_some_iff.2 hrs⟩

theorem result?_of_results? {c : Scene α} {rs : List α} (hr : c.results? = some rs) {i : Nat}
    {k : Strand α} (hk : c.mains[i]? = some k) : ∃ a, rs[i]? = some a ∧ k.result? = some a := by
  have hf := results?_eq_some_iff.1 hr
  obtain ⟨hi, rfl⟩ := List.getElem?_eq_some_iff.1 hk
  have hi' : i < rs.length := by rw [← hf.length_eq]; exact hi
  exact ⟨rs[i], List.getElem?_eq_getElem hi', by simpa using hf.get hi hi'⟩

/-- Whether a task that is not finished runs in a transaction. -/
def Holds (c : Scene α) (tx : TxRef) : Prop :=
  ∃ k ∈ c.tasks, k.result? = none ∧ k.post.invocation.map (·.tx) = some tx

/-- One step: of a main program or a task, of the clock, or, after the main programs, the end of a
handle that no task has. -/
inductive Step (app : Application) : Scene α → Scene α → Prop where
  | main {c : Scene α} {i : Nat} {k k' : Strand α} {site : Site} {new : Tasks}
      (hk : c.mains[i]? = some k) (hm : k.Move app c.tasks c.site site k' new) :
      Step app c ⟨site, c.mains.set i k', c.tasks ++ new⟩
  | task {c : Scene α} {t : Nat} {k k' : Strand (Outcome Unit)} {site : Site} {new : Tasks}
      (hk : c.tasks[t]? = some k) (hm : k.Move app c.tasks c.site site k' new) :
      Step app c ⟨site, c.mains, c.tasks.set t k' ++ new⟩
  | tick (c : Scene α) (clock : Nat) : Step app c { c with site := { c.site with clock } }
  | drop {c : Scene α} {tx : TxRef} (hf : c.results?.isSome) (ht : ¬ c.Holds tx) :
      Step app c { c with site := c.site.drop tx }

abbrev Steps (app : Application) : Scene α → Scene α → Prop := Relation.ReflTransGen (Step app)

/-- A run with a record: what is kept of the moves of each main program and of those of tasks. -/
inductive Recorded {ε : Type} (app : Application) (ofMain : Nat → Site → Strand α → List ε)
    (ofTask : Site → Strand (Outcome Unit) → List ε) (c₀ : Scene α) :
    List ε → Scene α → Prop where
  | start : Recorded app ofMain ofTask c₀ [] c₀
  | main {es : List ε} {c : Scene α} (h : Recorded app ofMain ofTask c₀ es c) {i : Nat}
      {k k' : Strand α} {site : Site} {new : Tasks} (hk : c.mains[i]? = some k)
      (hm : k.Move app c.tasks c.site site k' new) : Recorded app ofMain ofTask c₀
        (es ++ ofMain i c.site k) ⟨site, c.mains.set i k', c.tasks ++ new⟩
  | task {es : List ε} {c : Scene α} (h : Recorded app ofMain ofTask c₀ es c) {t : Nat}
      {k k' : Strand (Outcome Unit)} {site : Site} {new : Tasks} (hk : c.tasks[t]? = some k)
      (hm : k.Move app c.tasks c.site site k' new) : Recorded app ofMain ofTask c₀
        (es ++ ofTask c.site k) ⟨site, c.mains, c.tasks.set t k' ++ new⟩
  | tick {es : List ε} {c : Scene α} (h : Recorded app ofMain ofTask c₀ es c) (clock : Nat) :
      Recorded app ofMain ofTask c₀ es { c with site := { c.site with clock } }
  | drop {es : List ε} {c : Scene α} (h : Recorded app ofMain ofTask c₀ es c) {tx : TxRef}
      (hf : c.results?.isSome) (ht : ¬ c.Holds tx) :
      Recorded app ofMain ofTask c₀ es { c with site := c.site.drop tx }

namespace Recorded
variable {ε : Type} {app : Application} {ofMain : Nat → Site → Strand α → List ε}
  {ofTask : Site → Strand (Outcome Unit) → List ε} {c₀ c : Scene α} {es : List ε}

theorem steps (h : Recorded app ofMain ofTask c₀ es c) : Scene.Steps app c₀ c := by
  induction h with
  | start => exact .refl
  | main _ hk hm ih => exact .tail ih (.main hk hm)
  | task _ hk hm ih => exact .tail ih (.task hk hm)
  | tick _ clock ih => exact .tail ih (.tick _ clock)
  | drop _ hf ht ih => exact .tail ih (.drop hf ht)

/-- Every run has a record. -/
theorem exists_of_steps (h : Scene.Steps app c₀ c) : ∃ es, Recorded app ofMain ofTask c₀ es c := by
  induction h with
  | refl => exact ⟨[], .start⟩
  | tail _ hstep ih =>
    obtain ⟨es, ht⟩ := ih
    cases hstep with
    | main hk hm => exact ⟨_, ht.main hk hm⟩
    | task hk hm => exact ⟨_, ht.task hk hm⟩
    | tick clock => exact ⟨_, ht.tick clock⟩
    | drop hf hn => exact ⟨_, ht.drop hf hn⟩

end Recorded
end Scene
end RowGuard
