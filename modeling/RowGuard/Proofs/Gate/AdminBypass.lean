import RowGuard.Proofs.Gate.AutomaticChecks
import RowGuard.Proofs.Gate.BlanketAllow

/-! # Admins and their subjects

No predicate stops an admin, but the gate still wants the key of the subject, under which it records
that the subject has passed.  So it turns away an admin who asks about a subject without a full key.
The automatic check then fails a guarded write, even an insert whose body has made up a key and
succeeded.
-/
namespace RowGuard

section
variable {i : Invocation} {table : String} {t : Table} {app : Application}

/-- The gate asks an admin for nothing but the key of the subject. -/
theorem Site.can_of_admin (hs : i.environment = .server) (hb : Gate.bypasses i.identity = true)
    (ht : i.gate.schema.table? table = some t) (site : Site) {p : Post} {w : Where} (x : Subject)
    (hi : p.invocation = some i) (hw : w.table = some table) :
    (site.can p i.gate w x).1 = (x.keyValues t).map fun _ => () := by
  obtain ⟨r, checked, journal, hcan, h⟩ := site.can_eq_enforce (g := i.gate) (x := x) hi hs hw
  rw [Gate.enforce_of_bypasses hb, Gate.subjectKey_eq ht] at h
  rw [hcan]
  cases hk : x.keyValues t with
  | ok key =>
    rw [hk] at h
    exact h.1
  | error e =>
    rw [hk] at h
    exact h.1

/-- The record covers a subject without a full key as soon as some subject of the table has
passed. -/
theorem Checked.covers_of_no_key {g : Gate} (ht : g.schema.table? table = some t) {x : Subject}
    {e : Failure} (hx : x.keyValues t = .error e) (c : Checked) : c.covers g table x = c.on table := by
  simp [covers, passed, Gate.subjectKey_eq ht, hx, Except.map]

section
variable (hs : i.environment = .server) (hb : Gate.bypasses i.identity = true)
  (ht : i.gate.schema.table? table = some t) {w : Where} {custom : Option Body} {args : Json}
  {cs : List GateCall} {p p' : Post} {r : Outcome Unit}
include hs hb ht

/-- The automatic check of an admin fails exactly where the record does not cover the subject and
the subject has no full key. -/
theorem Strand.Course.check_of_admin (hi : p.invocation = some i) {x : Subject}
    (h : Strand.Course app ⟨p, .running (automaticCheck table (w.withTable table) x i)⟩ cs
      ⟨p', .running (.done r)⟩) :
    r = if p.checked.covers i.gate table x then .ok () else (x.keyValues t).map fun _ => () := by
  rcases h.of_automaticCheck hs with ⟨hcov, -, rfl⟩ | ⟨hcov, site, -, rfl, -⟩
  · rw [if_pos hcov]
  · rw [hcov, Site.can_of_admin hs hb ht site x hi rfl]
    rfl

/-- With a full key, the result of an insert of an admin is the result of its body.  Without it, the
insert fails unless its body has passed the gate for some subject of the table. -/
theorem Strand.Course.insert_of_admin
    (h : Strand.Course app ⟨.ofInvocation i,
      .running (guardedWrite table (w.withTable table) .insert custom i args)⟩ cs
      ⟨p, .running (.done r)⟩) :
    ∃ own p₁ result, Strand.Course app
        ⟨.ofInvocation i, .running ((custom.getD (writeRow table .insert)) i args)⟩ own
        ⟨p₁, .running (.done result)⟩ ∧
      (∀ f, result = .error f → r = .error f) ∧
      (result = .ok () → r = match (Subject.ofJson args).keyValues t with
        | .ok _ => .ok ()
        | .error e => if p₁.checked.on table then .ok () else .error e) := by
  rcases h.of_guardedInsert with ⟨f, rfl, hbody⟩ | ⟨own, check, p₁, -, hbody, hc⟩
  · exact ⟨cs, p, _, hbody, fun f h => h, fun h => (nomatch h)⟩
  · obtain ⟨checked, hp, -⟩ := hbody.records rfl hs
    have hr := hc.check_of_admin hs hb ht (by rw [show p₁ = _ from hp]; rfl)
    refine ⟨own, p₁, .ok (), hbody, fun f h => (nomatch h), fun _ => ?_⟩
    cases hk : (Subject.ofJson args).keyValues t with
    | ok key =>
      rw [hr, hk]
      simp [Except.map]
    | error e =>
      rw [hr, Checked.covers_of_no_key ht hk, hk]
      rfl

/-- With a full key, an update, upsert or delete of an admin gets to its body and comes to what the
body comes to.  Without it, it fails after its first call of the gate. -/
theorem Strand.Course.write_of_admin {a : Action} (ha : a ≠ .insert)
    (h : Strand.Course app ⟨.ofInvocation i,
      .running (guardedWrite table (w.withTable table) a custom i args)⟩ cs
      ⟨p, .running (.done r)⟩) :
    (∀ key, (Subject.ofJson args).keyValues t = .ok key → ∃ own checked,
      Strand.Course app ⟨{ Post.ofInvocation i with checked },
          .running ((custom.getD (writeRow table a)) i args)⟩ own ⟨p, .running (.done r)⟩) ∧
    ∀ e, (Subject.ofJson args).keyValues t = .error e → cs.length = 1 ∧ r = .error e := by
  have hcov : (Post.ofInvocation i).checked.covers i.gate table (.ofJson args) = false :=
    Checked.covers_nil ..
  rcases h.of_guardedWrite ha with ⟨f, rfl, hc⟩ | ⟨check, own, p₁, -, hc, hbody⟩
  · have hr := hc.check_of_admin hs hb ht rfl
    rw [hcov] at hr
    refine ⟨fun key hk => ?_, fun e he => ?_⟩
    · rw [hk] at hr
      cases hr
    · rcases hc.of_automaticCheck hs with ⟨hcov', -, -⟩ | ⟨-, site, rfl, -, -⟩
      · exact absurd hcov' (by simp [hcov])
      · rw [he] at hr
        exact ⟨rfl, hr⟩
  · have hr := hc.check_of_admin hs hb ht rfl
    rw [hcov] at hr
    obtain ⟨checked, rfl, -⟩ := hc.records rfl hs
    refine ⟨fun key hk => ⟨own, checked, hbody⟩, fun e he => ?_⟩
    rw [he] at hr
    cases hr

/-- The gate lets an admin pass exactly with a subject that has a full key.  With the key, a guarded
write of an admin comes to what its body comes to.  Without it, an update, upsert or delete fails
before its body, and an insert whose body has succeeded fails unless the body has passed the gate
for some subject of the table.  The body runs in the same invocation. -/
theorem admin_passes_iff :
    (∀ (site : Site) (p : Post) (w : Where) (x : Subject), p.invocation = some i →
      w.table = some table →
        ((site.can p i.gate w x).1 = .ok () ↔ ∃ key, x.keyValues t = .ok key) ∧
        ∀ e, x.keyValues t = .error e → (site.can p i.gate w x).1 = .error e) ∧
    ∀ (w : Where) (a : Action) (custom : Option Body) (args : Json) (cs : List GateCall) (p : Post)
      (r : Outcome Unit), Strand.Course app ⟨.ofInvocation i,
          .running (guardedWrite table (w.withTable table) a custom i args)⟩ cs
        ⟨p, .running (.done r)⟩ →
      (∀ key, (Subject.ofJson args).keyValues t = .ok key → ∃ own checked p₁,
        Strand.Course app ⟨{ Post.ofInvocation i with checked },
            .running ((custom.getD (writeRow table a)) i args)⟩ own ⟨p₁, .running (.done r)⟩) ∧
      ∀ e, (Subject.ofJson args).keyValues t = .error e →
        (a ≠ .insert → cs.length = 1 ∧ r = .error e) ∧
        (a = .insert → ∃ own p₁ result, Strand.Course app
            ⟨.ofInvocation i, .running ((custom.getD (writeRow table a)) i args)⟩ own
            ⟨p₁, .running (.done result)⟩ ∧
          (∀ f, result = .error f → r = .error f) ∧
          (result = .ok () → r = if p₁.checked.on table then .ok () else .error e)) := by
  refine ⟨fun site p w x hi hw => ?_, fun w a custom args cs p r h => ?_⟩
  · rw [Site.can_of_admin hs hb ht site x hi hw]
    cases x.keyValues t with
    | ok key => simp [Except.map]
    | error e => simp [Except.map]
  by_cases ha : a = .insert
  · subst ha
    obtain ⟨own, p₁, result, hbody, herror, hok⟩ := h.insert_of_admin hs hb ht
    refine ⟨fun key hk => ⟨own, [], p₁, ?_⟩, fun e he => ⟨fun h => absurd rfl h, fun _ =>
      ⟨own, p₁, result, hbody, herror, fun h => ?_⟩⟩⟩
    · cases result with
      | error f => exact herror f rfl ▸ hbody
      | ok u =>
        rw [hk] at hok
        exact hok rfl ▸ hbody
    · rw [he] at hok
      exact hok h
  · obtain ⟨hfull, hnone⟩ := h.write_of_admin hs hb ht ha
    refine ⟨fun key hk => ?_, fun e he => ⟨fun _ => hnone e he, fun h => absurd h ha⟩⟩
    obtain ⟨own, checked, hbody⟩ := hfull key hk
    exact ⟨own, checked, p, hbody⟩

end
end

namespace ProjectTasks

/-- A call of an admin in the first transaction. -/
def adminCall : Invocation := plainInvocation schema 0 (some .admin)

/-- The body of an insert that makes up the key of the new task. -/
def numbered : Body := fun i _ => .request (.mutate i.tx "task" .insert mine)

/-- A task to which its number has yet to be given. -/
def unnumbered : Json := .object [("project", .str "p"), ("author", .str "u1")]

/-- What an admin gets to hear about a task without a number. -/
def numberless : Failure :=
  .configuration "subject for task is missing primary key column number"

end ProjectTasks

open ProjectTasks in
theorem admin_passes_with_task :
    ((Site.new 0 [.direct store]).can (.ofInvocation adminCall) adminCall.gate (.denyAll "task")
      (subject 7)).1 = .ok () ∧
    ∃ cs p own checked p₁, Strand.Course ⟨.empty, 0⟩ ⟨.ofInvocation adminCall, .running
        (guardedWrite "task" (.denyAll "task") .insert (some numbered) adminCall (.ofRow mine))⟩ cs
        ⟨p, .running (.done (.ok ()))⟩ ∧
      Strand.Course ⟨.empty, 0⟩ ⟨{ Post.ofInvocation adminCall with checked },
        .running (numbered adminCall (.ofRow mine))⟩ own ⟨p₁, .running (.done (.ok ()))⟩ := by
  have hadmin := @admin_passes_iff adminCall "task" table ⟨.empty, 0⟩ rfl (by decide) rfl
  have hstart := @Strand.Course.start _ ⟨.empty, 0⟩ ⟨.ofInvocation adminCall, .running
    (guardedWrite "task" (.denyAll "task") .insert (some numbered) adminCall (.ofRow mine))⟩
  have hwritten := hstart.ask (.new 0 [.direct emptyStore])
  have hlooked := hwritten.ask (.new 0 [.direct emptyStore])
  have hasked := hlooked.ask (.new 0 [.direct emptyStore])
  obtain ⟨own, checked, p₁, hbody⟩ :=
    (hadmin.2 (.denyAll "task") .insert (some numbered) (.ofRow mine) _ _ _ hasked).1 _ rfl
  exact ⟨(hadmin.1 _ _ (.denyAll "task") (subject 7) rfl rfl).1.2 ⟨_, rfl⟩,
    _, _, own, checked, p₁, hasked, hbody⟩

open ProjectTasks in
/-- The gate turns away an admin for a task without a number, and so an insert fails whose body has
succeeded. -/
theorem admin_fails_without_number :
    ((Site.new 0 [.direct emptyStore]).can (.ofInvocation adminCall) adminCall.gate
      (.allowAll "task") (.ofJson unnumbered)).1 = .error numberless ∧
    ∃ turn turn', (numbered adminCall unnumbered).advance ⟨.empty, 0⟩ []
        ⟨0, .ofInvocation adminCall, Site.new 0 [.direct emptyStore]⟩ =
          (.finished (.ok ()), turn) ∧
      (guardedWrite "task" (.allowAll "task") .insert (some numbered) adminCall unnumbered).advance
        ⟨.empty, 0⟩ [] ⟨0, .ofInvocation adminCall, Site.new 0 [.direct emptyStore]⟩ =
          (.finished (.error numberless), turn') :=
  ⟨rfl, _, _, rfl, rfl⟩

end RowGuard
