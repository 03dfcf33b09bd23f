import RowGuard.Proofs.Gate.Exactness
import RowGuard.Proofs.Schedule.Deeds

/-! # The gate calls of a program

A program under way asks the gate now and then, beside whatever else goes on at its site.  The course
of the program keeps a list of these calls in order, each with its answer and with the predicates
that were consulted for it.  The record of an invocation can be read off the list: it holds the texts of
the subjects that have passed, and nothing else.  Whatever programs and tasks do side by side, each of
them goes through a course (`Scene.exists_course`).
-/
namespace RowGuard

/-- A call of the gate with its answer, and the labels of the predicates that were consulted. -/
structure GateCall where
  gate : Gate
  guard : Where
  subject : Subject
  answer : Outcome Unit
  consulted : List (Option String)

/-- The subject of a call that has passed is recorded under a text. -/
def GateCall.Records (c : GateCall) (text : String) : Prop :=
  c.answer = .ok () ∧ ∃ table, c.guard.table = some table ∧
    c.gate.subjectKey table c.subject = .ok text

/-- The call of a gate at a site. -/
def Site.gateCall (site : Site) (p : Post) (g : Gate) (w : Where) (x : Subject) : GateCall :=
  ⟨g, w, x, (site.can p g w x).1, match p.invocation with
    | none => []
    | some i => (g.can p.scope.actor i.actor (site.run i.tx) w x).labels⟩

namespace Strand
variable {α β : Type} {app : Application}

/-- The calls of the gate in the next move of a strand at a site. -/
def gateCalls (site : Site) (k : Strand α) : List GateCall :=
  match k.standing with
  | .running (.ask (.can g w x) _) => [site.gateCall k.post g w x]
  | _ => []

/-- The moves of one strand with its calls of the gate.  Between two moves the site and the tasks
beside the strand may change in any way. -/
inductive Course (app : Application) (k₀ : Strand α) : List GateCall → Strand α → Prop where
  | start : Course app k₀ [] k₀
  | move {cs : List GateCall} {k k' : Strand α} {ts new : Tasks} {site site' : Site}
      (h : Course app k₀ cs k) (hm : k.Move app ts site site' k' new) :
      Course app k₀ (cs ++ k.gateCalls site) k'

namespace Course
variable {k₀ k : Strand α} {cs : List GateCall} {p : Post}

/-- A request is answered by whatever site there is. -/
theorem ask {r : Request} {next : r.Reply → Program α}
    (h : Course app k₀ cs ⟨p, .running (.ask r next)⟩) (site : Site) :
    Course app k₀ (cs ++ gateCalls site ⟨p, .running (.ask r next)⟩)
      ⟨(site.answer p r).2.1, .running (next (site.answer p r).1)⟩ :=
  h.move (@Move.ask α app [] site p r next)

/-- A course begins with a first move, if it has any. -/
theorem cases_head (h : Course app k₀ cs k) : (cs = [] ∧ k = k₀) ∨
    ∃ (ts new : Tasks) (site site' : Site) (k₁ : Strand α) (rest : List GateCall),
      k₀.Move app ts site site' k₁ new ∧ cs = k₀.gateCalls site ++ rest ∧ Course app k₁ rest k := by
  induction h with
  | start => exact .inl ⟨rfl, rfl⟩
  | move _ hm ih =>
    rcases ih with ⟨rfl, rfl⟩ | ⟨ts, new, site, site', k₁, rest, hfirst, rfl, hrest⟩
    · exact .inr ⟨_, _, _, _, _, [], hm, by simp, .start⟩
    · exact .inr ⟨ts, new, site, site', k₁, _, hfirst, List.append_assoc .., hrest.move hm⟩

theorem of_done {a : α} (h : Course app ⟨p, .running (.done a)⟩ cs k) :
    cs = [] ∧ k = ⟨p, .running (.done a)⟩ := by
  rcases h.cases_head with h | ⟨_, _, _, _, _, _, hm, -⟩
  · exact h
  · cases hm

/-- A program that begins with a request has asked it when it is finished. -/
theorem of_ask {r : Request} {next : r.Reply → Program α} {a : α} {p' : Post}
    (h : Course app ⟨p, .running (.ask r next)⟩ cs ⟨p', .running (.done a)⟩) :
    ∃ site rest, cs = gateCalls site ⟨p, .running (.ask r next)⟩ ++ rest ∧
      Course app ⟨(site.answer p r).2.1, .running (next (site.answer p r).1)⟩ rest
        ⟨p', .running (.done a)⟩ := by
  rcases h.cases_head with ⟨-, hk⟩ | ⟨_, _, site, _, _, rest, hm, hcs, hrest⟩
  · cases hk
  · cases hm with
    | ask => exact ⟨site, rest, hcs, hrest⟩

/-- What a program does that is followed by another one, it does alone, and once it is finished the
other one begins. -/
theorem of_bind {x : Standing α} {f : α → Program β} {k : Strand β}
    (h : Course app ⟨p, x.bind f⟩ cs k) :
    (∃ p' y, k = ⟨p', y.bind f⟩ ∧ Course app ⟨p, x⟩ cs ⟨p', y⟩) ∨
      ∃ first second p' a, cs = first ++ second ∧
        Course app ⟨p, x⟩ first ⟨p', .running (.done a)⟩ ∧
        Course app ⟨p', .running (f a)⟩ second k := by
  induction h with
  | start => exact .inl ⟨p, x, rfl, .start⟩
  | @move cs k k' ts new site site' h hm ih =>
    rcases ih with ⟨p', y, rfl, hy⟩ | ⟨first, second, p', a, rfl, hfirst, hsecond⟩
    · rcases hm.of_bind with ⟨a, rfl⟩ | ⟨j, rfl, hj⟩
      · exact .inr ⟨cs, _, p', a, rfl, hy, .move .start hm⟩
      · -- The next move is one of the first program, which makes the same calls.
        have hcalls : gateCalls site (⟨p', y.bind f⟩ : Strand β) = gateCalls site ⟨p', y⟩ := by
          cases hj with
          | ask _ _ r => cases r <;> rfl
          | _ => rfl
        rw [hcalls]
        exact .inl ⟨j.post, j.standing, rfl, hy.move hj⟩
    · exact .inr ⟨first, _, p', a, List.append_assoc .., hfirst, hsecond.move hm⟩

/-- Two programs in a row are finished one after the other. -/
theorem of_bind_done {q : Program α} {f : α → Program β} {b : β} {p' : Post}
    (h : Course app ⟨p, .running (q.bind f)⟩ cs ⟨p', .running (.done b)⟩) :
    ∃ first second p₁ a, cs = first ++ second ∧
      Course app ⟨p, .running q⟩ first ⟨p₁, .running (.done a)⟩ ∧
      Course app ⟨p₁, .running (f a)⟩ second ⟨p', .running (.done b)⟩ := by
  have h' : Course app ⟨p, (Standing.running q).bind f⟩ cs ⟨p', .running (.done b)⟩ := h
  rcases h'.of_bind with ⟨p₁, y, hk, hy⟩ | hsplit
  · obtain ⟨rfl, hstanding⟩ := Strand.mk.inj hk
    match y with
    | .running (.done a) => exact ⟨cs, [], _, a, by simp, hy, hstanding ▸ .start⟩
    | .running (.ask ..) | .running (.sleep ..) | .running .hang | .running (.begin ..)
    | .running (.call ..) | .running (.stepAside ..) | .waiting .. => cases hstanding
  · exact hsplit

/-- If the first of two programs fails, the second one never begins. -/
theorem of_andThen_done {q : Program (Outcome α)} {f : α → Program (Outcome β)} {r : Outcome β}
    {p' : Post} (h : Course app ⟨p, .running (q.andThen f)⟩ cs ⟨p', .running (.done r)⟩) :
    (∃ e, r = .error e ∧ Course app ⟨p, .running q⟩ cs ⟨p', .running (.done (.error e))⟩) ∨
      ∃ first second p₁ a, cs = first ++ second ∧
        Course app ⟨p, .running q⟩ first ⟨p₁, .running (.done (.ok a))⟩ ∧
        Course app ⟨p₁, .running (f a)⟩ second ⟨p', .running (.done r)⟩ := by
  obtain ⟨first, second, p₁, x, rfl, hfirst, hsecond⟩ := of_bind_done h
  cases x with
  | ok a => exact .inr ⟨first, second, p₁, a, rfl, hfirst, hsecond⟩
  | error e =>
    obtain ⟨rfl, hk⟩ := of_done hsecond
    obtain ⟨rfl, hr⟩ := Strand.mk.inj hk
    obtain rfl := Program.done.inj (Standing.running.inj hr)
    exact .inl ⟨e, rfl, by rwa [List.append_nil]⟩

end Course
end Strand

section Record
variable {α : Type} {app : Application} {i : Invocation} {p : Post} {g : Gate} {w : Where}
  {x : Subject} {site : Site}

/-- A gate on the server wants a predicate that is bound to a table. -/
theorem Gate.can_of_no_table {a m : Actor} (hm : m.environment = .server) (hw : w.table = none)
    (read : Query → Outcome (List Row)) : (g.can a m read w x).result =
      .error (.configuration "Must use a table-bound Where to pass to can()") := by
  simp [can, hm, hw, Ruling.ofOutcome]

/-- A call of the gate changes nothing about its invocation but the record, to which it adds the
text of a subject that has passed. -/
theorem Site.can_records (hi : p.invocation = some i) (hs : i.environment = .server) :
    ∃ checked, (site.can p g w x).2.1 = { p with checked } ∧ ∀ text,
      text ∈ checked ↔ text ∈ p.checked ∨ (site.gateCall p g w x).Records text := by
  cases hw : w.table with
  | none =>
    have hc := Gate.can_of_no_table (g := g) (a := p.scope.actor) (m := i.actor) (x := x) hs hw
      (site.run i.tx)
    have hp : (site.can p g w x).2.1 = p := by simp only [can, hi, hc]
    refine ⟨p.checked, hp, fun text => ?_⟩
    simp [GateCall.Records, gateCall, hw]
  | some table =>
    obtain ⟨r, checked, journal, hcan, h⟩ := site.can_eq_enforce (g := g) (x := x) hi hs hw
    refine ⟨checked, by rw [hcan], fun text => ?_⟩
    simp only [GateCall.Records, gateCall, hcan, hw, Option.some.injEq, exists_eq_left']
    cases he : (g.enforce p.scope.actor i.actor (site.run i.tx) table w x).result with
    | error e =>
      rw [he] at h
      obtain ⟨rfl, rfl⟩ := h
      simp
    | ok u =>
      cases hk : g.subjectKey table x with
      | error e =>
        rw [he, hk] at h
        obtain ⟨rfl, rfl⟩ := h
        simp
      | ok text' =>
        rw [he, hk] at h
        obtain ⟨rfl, rfl⟩ := h
        simp [Checked.mem_mark, or_comm, eq_comm]

/-- Only a call of the gate changes what belongs to a piece of running code. -/
theorem Site.answer_post {r : Request} (hr : ∀ g w x, r ≠ .can g w x) :
    (site.answer p r).2.1 = p := by
  cases r with
  | can g w x => exact absurd rfl (hr g w x)
  | _ => rfl

/-- The record of an invocation on the server grows by the texts of the subjects that pass. -/
theorem Strand.Course.records {k₀ k : Strand α} {cs : List GateCall} (h : k₀.Course app cs k)
    (hi : k₀.post.invocation = some i) (hs : i.environment = .server) :
    ∃ checked, k.post = { k₀.post with checked } ∧ ∀ text,
      text ∈ checked ↔ text ∈ k₀.post.checked ∨ ∃ c ∈ cs, c.Records text := by
  induction h with
  | start => exact ⟨k₀.post.checked, rfl, fun text => by simp⟩
  | @move cs k k' ts new site site' _ hm ih =>
    obtain ⟨checked, hp, hrec⟩ := ih
    have hstay : k'.post = k.post → k.gateCalls site = [] → ∃ checked,
        k'.post = { k₀.post with checked } ∧ ∀ text, text ∈ checked ↔
          text ∈ k₀.post.checked ∨ ∃ c ∈ cs ++ k.gateCalls site, c.Records text :=
      fun hpost hcalls => ⟨checked, hpost.trans hp, fun text => by
        rw [hcalls, List.append_nil]
        exact hrec text⟩
    cases hm with
    | ask _ post r next =>
      by_cases hr : ∃ g w x, r = .can g w x
      · obtain ⟨g, w, x, rfl⟩ := hr
        obtain rfl : post = { k₀.post with checked } := hp
        obtain ⟨checked', hp', hrec'⟩ :=
          @Site.can_records i { k₀.post with checked } g w x site hi hs
        refine ⟨checked', hp', fun text => ?_⟩
        rw [hrec' text, hrec text]
        simp [gateCalls, or_assoc, or_and_right, exists_or]
      · have hr' : ∀ g w x, r ≠ .can g w x := fun g w x h => hr ⟨g, w, x, h⟩
        refine hstay (Site.answer_post hr') ?_
        cases r with
        | can g w x => exact absurd rfl (hr' g w x)
        | _ => rfl
    | sleep | begin | call | unknown | stepAside | deliver | expire => exact hstay rfl rfl

/-- A gate on the server puts a predicate for a declared table to one consultation, unless the
identity bypasses it. -/
theorem Gate.can_labels {a m : Actor} {table : String} {t : Table} (hm : m.environment = .server)
    (hb : bypasses m.identity = false) (hw : w.table = some table)
    (ht : g.schema.table? table = some t) (read : Query → Outcome (List Row)) :
    (g.can a m read w x).labels = [w.label] := by
  have he : (g.existenceIn a m.environment m.identity w x none).labels = [w.label] := by
    rw [hm, existenceIn_server none m.identity hw ht]
  have henf : (g.enforce a m read table w x).labels = [w.label] := by
    simp only [enforce, hb, Bool.false_eq_true, ↓reduceIte, Ruling.andThen]
    split <;> simp [he, Ruling.ofOutcome]
  simp only [can, hm, hw, Ruling.andThen]
  split <;> simp [henf, Ruling.ofOutcome]

end Record

/-- The tasks of a scene as they begin: jobs, calls among them, and steps aside. -/
inductive Strand.Fresh (app : Application) : Strand (Outcome Unit) → Prop where
  | job (j : Job) : Fresh app (j.strand app)
  | aside : Fresh app ⟨.outside, .running (.done (.ok ()))⟩

/-- What a move of a strand starts is fresh. -/
theorem Strand.Move.fresh {α : Type} {app : Application} {ts new : Tasks} {site site' : Site}
    {k k' : Strand α} (hm : k.Move app ts site site' k' new) : ∀ j ∈ new, j.Fresh app := by
  intro j hj
  cases hm with
  | ask =>
    obtain ⟨job, -, rfl⟩ := List.mem_map.1 hj
    exact .job job
  | call =>
    obtain rfl := List.mem_singleton.1 hj
    exact .job (.mutation _)
  | stepAside =>
    obtain rfl := List.mem_singleton.1 hj
    exact .aside
  | sleep | begin | unknown | deliver | expire => cases hj

/-- However main programs and tasks interleave, behind every one of them is a course of its own. -/
theorem Scene.exists_course {α : Type} {app : Application} {site : Site} {mains : List (Strand α)}
    {c : Scene α} (h : Scene.Steps app (.start site mains) c) :
    (∀ k ∈ c.mains, ∃ k₀ ∈ mains, ∃ cs, k₀.Course app cs k) ∧
      ∀ k ∈ c.tasks, ∃ (k₀ : Strand (Outcome Unit)) (cs : List GateCall),
        k₀.Fresh app ∧ k₀.Course app cs k := by
  induction h with
  | refl => exact ⟨fun k hk => ⟨k, hk, [], .start⟩, fun k hk => nomatch hk⟩
  | tail _ hstep ih =>
    obtain ⟨hmains, htasks⟩ := ih
    have hnew : ∀ {new : Tasks}, (∀ j ∈ new, j.Fresh app) →
        ∀ k ∈ new, ∃ (k₀ : Strand (Outcome Unit)) (cs : List GateCall),
          k₀.Fresh app ∧ k₀.Course app cs k :=
      fun hfresh k hk => ⟨k, [], hfresh k hk, .start⟩
    cases hstep with
    | @main i k k' site new hk hm =>
      refine ⟨fun j hj => ?_,
        fun j hj => (List.mem_append.1 hj).elim (htasks j) (hnew (Strand.Move.fresh hm) j)⟩
      rcases List.mem_or_eq_of_mem_set hj with hj | rfl
      · exact hmains j hj
      · obtain ⟨k₀, hk₀, cs, hcourse⟩ := hmains k (List.mem_of_getElem? hk)
        exact ⟨k₀, hk₀, _, hcourse.move hm⟩
    | @task t k k' site new hk hm =>
      refine ⟨hmains,
        fun j hj => (List.mem_append.1 hj).elim (fun hj => ?_) (hnew (Strand.Move.fresh hm) j)⟩
      rcases List.mem_or_eq_of_mem_set hj with hj | rfl
      · exact htasks j hj
      · obtain ⟨k₀, cs, hfresh, hcourse⟩ := htasks k (List.mem_of_getElem? hk)
        exact ⟨k₀, _, hfresh, hcourse.move hm⟩
    | tick | drop => exact ⟨hmains, htasks⟩

end RowGuard
