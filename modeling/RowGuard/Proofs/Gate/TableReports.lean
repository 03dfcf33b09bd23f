import RowGuard.Proofs.Gate.AdminBypass
import RowGuard.Proofs.Gate.Suppression

/-! # Reports on a table

Whether a check has passed for some subject of a table is read off the beginnings of the recorded
texts: the name of the table and a colon.  Names may hold colons and brackets too, so the text of a
subject of another table can begin in the same way.  Then the report is wrong, and an insert without
a full key goes unchecked.
-/
namespace RowGuard

theorem Checked.on_eq_true_iff {c : Checked} {table : String} :
    c.on table = true ↔ ∃ text ∈ c, (table ++ ":").toList <+: text.toList := by
  simp [on, List.any_eq_true]

/-- The texts of one table can begin like those of another: its name goes on with a colon behind the
other name, or the other name with a colon and a bracket behind its own. -/
def Gate.Confusable (other table : String) : Prop :=
  (table ++ ":").toList <+: other.toList ∨ (other ++ ":[").toList <+: table.toList

/-- A text that begins with the name of a table is a text of this table or of a confusable one. -/
theorem Gate.confusable_of_prefix {table other : String} {key : List (String × Json)}
    (h : (table ++ ":").toList <+: (textOf other key).toList) :
    table = other ∨ Confusable other table := by
  obtain ⟨rest, hrest⟩ := h
  simp only [textOf, Json.compact, Json.text, String.toList_append, String.toList_ofList,
    show ":".toList = [':'] from rfl, List.append_assoc, List.cons_append, List.nil_append] at hrest
  rcases List.append_eq_append_iff.1 hrest with ⟨cs, hname, hcs⟩ | ⟨cs, hname, hcs⟩
  · cases cs with
    | nil => exact .inl (String.toList_injective (by simpa using hname.symm))
    | cons c cs =>
      obtain ⟨rfl, -⟩ := List.cons.inj hcs
      exact .inr (.inl ⟨cs, by simp [hname]⟩)
  · rcases cs with _ | ⟨c, _ | ⟨d, cs⟩⟩
    · exact .inl (String.toList_injective (by simpa using hname))
    · simp at hcs
    · simp only [List.cons_append, List.cons.injEq] at hcs
      obtain ⟨rfl, rfl, -⟩ := hcs
      exact .inr (.inr ⟨cs, by simp [hname]⟩)

namespace GateCall
variable {c : GateCall} {table : String}

/-- A call has passed for a subject of a table. -/
def PassedOn (c : GateCall) (table : String) : Prop :=
  c.answer = .ok () ∧ c.guard.table = some table

/-- A call has passed for a subject of another table whose text begins like those of a table. -/
def Mimics (c : GateCall) (table : String) : Prop :=
  ∃ other text, other ≠ table ∧ c.PassedOn other ∧
    c.gate.subjectKey other c.subject = .ok text ∧ (table ++ ":").toList <+: text.toList

theorem Mimics.confusable (h : c.Mimics table) :
    ∃ other, other ≠ table ∧ c.PassedOn other ∧ Gate.Confusable other table := by
  obtain ⟨other, text, hne, hpassed, htext, hprefix⟩ := h
  obtain ⟨t, key, -, -, rfl⟩ := Gate.subjectKey_eq_ok_iff.1 htext
  exact ⟨other, hne, hpassed, (Gate.confusable_of_prefix hprefix).resolve_left hne.symm⟩

/-- The text of a call begins with the name of a table if it is recorded for a subject of this table,
or mimics one. -/
theorem exists_prefix_iff (hc : c.answer = .ok () → ∃ text, c.Records text) :
    (∃ text, c.Records text ∧ (table ++ ":").toList <+: text.toList) ↔
      c.PassedOn table ∨ c.Mimics table := by
  constructor
  · rintro ⟨text, ⟨hok, other, hw, htext⟩, hprefix⟩
    by_cases he : other = table
    · exact .inl ⟨hok, he ▸ hw⟩
    · exact .inr ⟨other, text, he, ⟨hok, hw⟩, htext, hprefix⟩
  · rintro (⟨hok, hw⟩ | ⟨other, text, -, ⟨hok, hw⟩, htext, hprefix⟩)
    · obtain ⟨text, hrecord⟩ := hc hok
      refine ⟨text, hrecord, ?_⟩
      obtain ⟨-, other, hw', htext⟩ := hrecord
      obtain rfl := Option.some.inj (hw.symm.trans hw')
      obtain ⟨t, key, -, -, rfl⟩ := Gate.subjectKey_eq_ok_iff.1 htext
      exact ⟨(Json.arr (key.map Prod.snd)).compact.toList, by simp [Gate.textOf]⟩
    · exact ⟨text, ⟨hok, other, hw, htext⟩, hprefix⟩

end GateCall

/-- A call on the server that passes is recorded. -/
theorem Site.gateCall_records {p : Post} {i : Invocation} {g : Gate} {w : Where} {x : Subject}
    (site : Site) (hi : p.invocation = some i) (hs : i.environment = .server)
    (hok : (site.gateCall p g w x).answer = .ok ()) :
    ∃ text, (site.gateCall p g w x).Records text := by
  have hcan : (site.can p g w x).1 = .ok () := hok
  cases hw : w.table with
  | none =>
    have hc := Gate.can_of_no_table (g := g) (a := p.scope.actor) (m := i.actor) (x := x) hs hw
      (site.run i.tx)
    simp only [can, hi, hc] at hcan
    cases hcan
  | some table =>
    obtain ⟨r, checked, journal, hanswer, h⟩ := site.can_eq_enforce (g := g) (x := x) hi hs hw
    rw [hanswer] at hcan
    cases hk : g.subjectKey table x with
    | ok text => exact ⟨text, hok, table, hw, hk⟩
    | error e =>
      cases he : (g.enforce p.scope.actor i.actor (site.run i.tx) table w x).result <;>
        simp_all [Except.bind]

section
variable {α : Type} {app : Application} {i : Invocation} {x : Standing α} {k : Strand α}
  {cs : List GateCall}

/-- The report on a table is positive if a call has passed for a subject of this table, or for one
that mimics it. -/
theorem Strand.Course.on_iff (h : Strand.Course app ⟨.ofInvocation i, x⟩ cs k)
    (hs : i.environment = .server) (table : String) :
    k.post.checked.on table = true ↔
      (∃ c ∈ cs, c.PassedOn table) ∨ ∃ c ∈ cs, c.Mimics table := by
  obtain ⟨checked, hp, hrec⟩ := h.records rfl hs
  have hnew : ∀ text, text ∉ (Post.ofInvocation i).checked := fun _ h => nomatch h
  have hrecords : ∀ c ∈ cs, c.answer = .ok () → ∃ text, c.Records text := by
    intro c hc hok
    obtain ⟨site, p, hi, hcall⟩ := h.exists_gateCall rfl hs c hc
    rw [hcall] at hok ⊢
    exact site.gateCall_records hi hs hok
  rw [Checked.on_eq_true_iff, show k.post.checked = checked by rw [hp]]
  simp only [hrec, hnew, false_or]
  constructor
  · rintro ⟨text, ⟨c, hc, hrecord⟩, hprefix⟩
    exact ((GateCall.exists_prefix_iff (hrecords c hc)).1 ⟨text, hrecord, hprefix⟩).imp
      (fun h => ⟨c, hc, h⟩) fun h => ⟨c, hc, h⟩
  · have hback : ∀ c ∈ cs, c.PassedOn table ∨ c.Mimics table →
        ∃ text, (∃ c ∈ cs, c.Records text) ∧ (table ++ ":").toList <+: text.toList := by
      intro c hc h
      obtain ⟨text, hrecord, hprefix⟩ := (GateCall.exists_prefix_iff (hrecords c hc)).2 h
      exact ⟨text, ⟨c, hc, hrecord⟩, hprefix⟩
    rintro (⟨c, hc, h⟩ | ⟨c, hc, h⟩)
    · exact hback c hc (.inl h)
    · exact hback c hc (.inr h)

end

/-- For a subject without a full key the record asks for any subject of the table. -/
theorem Checked.covers_eq_on {g : Gate} {table : String} {x : Subject} {e : Failure}
    (hx : g.subjectKey table x = .error e) (c : Checked) : c.covers g table x = c.on table := by
  simp [covers, passed, hx, Except.map]

/-- In an invocation on the server the report on a table is positive exactly if a call of the gate has
passed for a subject of the table or for a subject of another one that mimics it.  So it is exact but
where only other tables mimic this one, and these have confusable names.  An insert without a full
key goes unchecked exactly if the report on its table is positive behind its body. -/
theorem table_report_iff {app : Application} {i : Invocation} (hs : i.environment = .server) :
    (∀ (α : Type) (x : Standing α) (cs : List GateCall) (k : Strand α),
      Strand.Course app ⟨.ofInvocation i, x⟩ cs k → ∀ table,
        (k.post.checked.on table = true ↔
          (∃ c ∈ cs, c.PassedOn table) ∨ ∃ c ∈ cs, c.Mimics table) ∧
        ((k.post.checked.on table = true ↔ ∃ c ∈ cs, c.PassedOn table) ↔
          ((∃ c ∈ cs, c.Mimics table) → ∃ c ∈ cs, c.PassedOn table))) ∧
    (∀ (c : GateCall) (table : String), c.Mimics table →
      ∃ other, other ≠ table ∧ c.PassedOn other ∧ Gate.Confusable other table) ∧
    ∀ (table : String) (w : Where) (custom : Option Body) (args : Json) (e : Failure)
      (cs : List GateCall) (p : Post) (r : Outcome Unit),
      i.gate.subjectKey table (.ofJson args) = .error e →
      Strand.Course app ⟨.ofInvocation i,
        .running (guardedWrite table (w.withTable table) .insert custom i args)⟩ cs
        ⟨p, .running (.done r)⟩ →
      ∃ own p₁ result, Strand.Course app
          ⟨.ofInvocation i, .running ((custom.getD (writeRow table .insert)) i args)⟩ own
          ⟨p₁, .running (.done result)⟩ ∧
        (∀ f, result = .error f → cs = own ∧ r = .error f) ∧
        (result = .ok () →
          ((∃ c ∈ own, c.PassedOn table ∨ c.Mimics table) → cs = own ∧ r = .ok ()) ∧
          ((¬ ∃ c ∈ own, c.PassedOn table ∨ c.Mimics table) →
            ∃ c, cs = own ++ [c] ∧ c.IsAutomatic i.gate (w.withTable table) args ∧
              r = c.answer)) := by
  refine ⟨fun α x cs k h table => ⟨h.on_iff hs table, ?_⟩, fun c table h => h.confusable, ?_⟩
  · rw [h.on_iff hs table]
    exact ⟨fun h hmimic => h.1 (.inr hmimic), fun h => ⟨fun hor => hor.elim id h, .inl⟩⟩
  · intro table w custom args e cs p r hx h
    rcases h.of_guardedInsert with ⟨f, rfl, hbody⟩ | ⟨own, check, p₁, rfl, hbody, hc⟩
    · exact ⟨cs, p, _, hbody, fun f' hf => ⟨rfl, hf⟩, fun hok => (nomatch hok)⟩
    · have hreport : p₁.checked.covers i.gate table (.ofJson args) = true ↔
          ∃ c ∈ own, c.PassedOn table ∨ c.Mimics table := by
        rw [Checked.covers_eq_on hx, hbody.on_iff hs table]
        simp only [and_or_left, exists_or]
      refine ⟨own, p₁, .ok (), hbody, fun f hf => (nomatch hf), fun _ => ?_⟩
      rw [← hreport]
      rcases hc.of_automaticCheck hs with ⟨hyes, rfl, rfl⟩ | ⟨hno, site, rfl, rfl, -⟩
      · exact ⟨fun _ => ⟨List.append_nil _, rfl⟩, fun hno => absurd hyes hno⟩
      · refine ⟨fun hyes => absurd (hno.symm.trans hyes) (by simp), fun _ => ?_⟩
        exact ⟨_, rfl, ⟨rfl, rfl, rfl⟩, rfl⟩

open ProjectTasks in
/-- A call that has passed for one task lets an insert go unchecked that does not name its task. -/
theorem table_report_of_other_task : ∃ c p p₁,
    Strand.Course ⟨.empty, 0⟩ ⟨.ofInvocation invocation,
      .running (guardedWrite "task" visible .insert (some askingAside) invocation unnumbered)⟩ [c]
      ⟨p, .running (.done (.ok ()))⟩ ∧
    Strand.Course ⟨.empty, 0⟩ ⟨.ofInvocation invocation,
      .running (askingAside invocation unnumbered)⟩ [c] ⟨p₁, .running (.done (.ok ()))⟩ ∧
    c.PassedOn "task" ∧ p.checked.on "task" = true := by
  have hstart := @Strand.Course.start _ ⟨.empty, 0⟩ ⟨.ofInvocation invocation, .running
    (guardedWrite "task" visible .insert (some askingAside) invocation unnumbered)⟩
  have haside := hstart.ask before
  rw [aside_passed] at haside
  have hwritten := haside.ask before
  rw [added_inserted] at hwritten
  have hlooked : Strand.Course ⟨.empty, 0⟩ _
      [before.gateCall (.ofInvocation invocation) invocation.gate visible (subject 2)]
      ⟨passedAside, .running (if passedAside.checked.covers invocation.gate "task"
        (.ofJson unnumbered) then .done (.ok ())
        else .request (.can invocation.gate visible (.ofJson unnumbered)))⟩ := hwritten.ask after
  rw [if_pos (by decide +kernel)] at hlooked
  have hpassed : (before.gateCall (.ofInvocation invocation) invocation.gate visible
      (subject 2)).PassedOn "task" := ⟨by decide +kernel, rfl⟩
  have hreport := (@table_report_iff ⟨.empty, 0⟩ invocation rfl).1 _ _ _ _ hlooked "task"
  obtain ⟨own, p₁, result, hbody, herror, hok⟩ := (@table_report_iff ⟨.empty, 0⟩ invocation
    rfl).2.2 "task" visible (some askingAside) unnumbered numberless _ _ _ rfl hlooked
  cases result with
  | error e => exact absurd (herror e rfl).2 (by simp)
  | ok u =>
    have hbehind : ∃ c ∈ own, c.PassedOn "task" ∨ c.Mimics "task" := by
      refine Classical.byContradiction fun hnone => ?_
      obtain ⟨c, hcs, ⟨-, -, hsubject⟩, -⟩ := (hok rfl).2 hnone
      have hlast := congrArg List.getLast? hcs
      rw [List.getLast?_concat] at hlast
      obtain rfl := Option.some.inj hlast
      cases congrArg (Subject.keyValues table) hsubject
    obtain ⟨rfl, -⟩ := (hok rfl).1 hbehind
    exact ⟨_, _, p₁, hlooked, hbody, hpassed, hreport.1.2 (.inl ⟨_, List.mem_cons_self, hpassed⟩)⟩

/-! A table of notes, and one of drafts with the name of the other in its own. -/
namespace DraftNotes

def schema : Schema :=
  (Schema.empty.addTable
    ⟨"note", [⟨"id", .string, false, none⟩, ⟨"author", .string, false, none⟩], ["id"]⟩).addTable
    ⟨"note:draft", [⟨"id", .string, false, none⟩], ["id"]⟩

def store : Store :=
  (Store.new schema).after [.seed 0 "note:draft" [.ofList [("id", .str "d1")]], .begin]

def invocation : Invocation := plainInvocation schema 0 (some (.ofId "u1"))

/-- The predicate that permits one's own notes. -/
def own : Where := .onTable "note" fun _ _ auth => auth.map fun a =>
  .rows (.columnIs "author" (.str a.id))

/-- The body of an insert that asks about a draft and then makes up the key of the note. -/
def fromDraft : Body := fun i _ =>
  (Program.request (.can i.gate (.allowAll "note:draft") (.id (.str "d1")))).bind fun _ =>
    .request (.mutate i.tx "note" .insert (.ofList [("id", .str "n1"), ("author", .str "u2")]))

def keyless : Json := .object [("author", .str "u2")]

end DraftNotes

open DraftNotes in
/-- A draft stands in for the check of a note. -/
theorem note_unchecked_beside_draft : ∃ c p, Strand.Course ⟨.empty, 0⟩ ⟨.ofInvocation invocation,
      .running (guardedWrite "note" own .insert (some fromDraft) invocation keyless)⟩ [c]
      ⟨p, .running (.done (.ok ()))⟩ ∧
    p.checked.on "note" = true ∧ ¬ c.PassedOn "note" := by
  have hstart := @Strand.Course.start _ ⟨.empty, 0⟩ ⟨.ofInvocation invocation,
    .running (guardedWrite "note" own .insert (some fromDraft) invocation keyless)⟩
  have hasked := hstart.ask (.new 0 [.direct store])
  have hwritten := hasked.ask (.new 0 [.direct store])
  have hlooked := hwritten.ask (.new 0 [.direct store])
  refine ⟨_, _, hlooked, by decide +kernel, fun h => ?_⟩
  exact absurd h.2 (by decide)

end RowGuard
