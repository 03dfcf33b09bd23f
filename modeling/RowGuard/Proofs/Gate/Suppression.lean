import RowGuard.Proofs.Gate.SubjectTexts
import RowGuard.Proofs.Gate.AutomaticChecks

/-! # When the automatic check is left out

An update, upsert or delete is always checked before its body.  An insert is checked after its body,
unless the body has asked the gate about the very subject of the insert and the gate has let it
pass.  A call that has failed, or that has passed for another table or another key, does not count.
-/
namespace RowGuard

/-- A subject is proper if its values are. -/
theorem Subject.proper_ofJson {v : Json} (h : v.Proper) : (Subject.ofJson v).toJson.Proper := by
  cases h with
  | obj hfields => exact Json.proper_ofRow hfields
  | null => exact .null
  | bool b => exact .bool b
  | num hn => exact .num hn
  | str s => exact .str s
  | arr hitems => exact .arr hitems

theorem Subject.proper_of_mem_keyValues {t : Table} {x : Subject} {key : List (String × Json)}
    (hx : x.keyValues t = .ok key) (hp : x.toJson.Proper) : ∀ e ∈ key, e.2.Proper := by
  have hvalue : ∀ {c : String} {e : String × Json}, x.keyValue t c = .ok e → e.2.Proper := by
    intro c e he
    cases x with
    | id v =>
      obtain rfl := Except.ok.inj he
      exact hp
    | row r =>
      simp only [keyValue] at he
      split at he
      · rename_i v hv
        obtain rfl := Except.ok.inj he
        have hp' : (Json.obj r.entries).Proper := hp
        cases hp' with
        | obj hfields => exact hfields (c, v) (Dict.get?_eq_some_iff.1 hv)
      · cases he
  have hcolumns := forall₂_keyValues hx
  clear hx
  generalize t.primaryKey = columns at hcolumns
  induction hcolumns with
  | nil => exact List.forall_mem_nil _
  | cons he _ ih => exact List.forall_mem_cons.2 ⟨hvalue he, ih⟩

theorem Gate.subjectKey_eq_ok_iff {g : Gate} {table text : String} {x : Subject} :
    g.subjectKey table x = .ok text ↔ ∃ t key, g.schema.table? table = some t ∧
      x.keyValues t = .ok key ∧ text = textOf table key := by
  constructor
  · intro h
    cases hr : g.schema.require table with
    | error e =>
      simp only [subjectKey, hr, bind, Except.bind] at h
      cases h
    | ok t =>
      have ht := Schema.require_eq_ok_iff.1 hr
      rw [subjectKey_eq ht] at h
      cases hk : x.keyValues t with
      | error e =>
        rw [hk] at h
        cases h
      | ok key =>
        rw [hk] at h
        exact ⟨t, key, ht, hk, (Except.ok.inj h).symm⟩
  · rintro ⟨t, key, ht, hk, rfl⟩
    exact subjectKey_of_key ht hk

theorem Checked.covers_of_key {c : Checked} {g : Gate} {table : String} {t : Table} {x : Subject}
    {key : List (String × Json)} (ht : g.schema.table? table = some t)
    (hx : x.keyValues t = .ok key) : c.covers g table x = true ↔ Gate.textOf table key ∈ c := by
  simp [covers, passed, Gate.subjectKey_of_key ht hx, Except.map]

namespace GateCall
variable {c : GateCall} {table : String} {values : List Json}

/-- A call has passed for the subject of a table with the given values in the key columns. -/
def Passed (c : GateCall) (table : String) (values : List Json) : Prop :=
  c.answer = .ok () ∧ c.guard.table = some table ∧ ∃ t key,
    c.gate.schema.table? table = some t ∧ c.subject.keyValues t = .ok key ∧
      key.map Prod.snd = values

/-- A call records the text of a subject only if it has passed for this subject. -/
theorem records_textOf_iff {key : List (String × Json)} (hk : ∀ e ∈ key, e.2.Proper)
    (hc : c.subject.toJson.Proper) :
    c.Records (Gate.textOf table key) ↔ c.Passed table (key.map Prod.snd) := by
  constructor
  · rintro ⟨hok, table', hw, htext⟩
    obtain ⟨t, key', ht, hx, he⟩ := Gate.subjectKey_eq_ok_iff.1 htext
    obtain ⟨rfl, hvalues⟩ := Gate.textOf_injective hk (Subject.proper_of_mem_keyValues hx hc) he
    exact ⟨hok, hw, t, key', ht, hx, hvalues.symm⟩
  · rintro ⟨hok, hw, t, key', ht, hx, hvalues⟩
    refine ⟨hok, table, hw, ?_⟩
    rw [Gate.subjectKey_of_key ht hx, Gate.textOf, hvalues]
    rfl

/-- The call of the gate that the automatic check makes. -/
def IsAutomatic (c : GateCall) (g : Gate) (w : Where) (args : Json) : Prop :=
  c.gate = g ∧ c.guard = w ∧ c.subject = .ofJson args

end GateCall

/-- A call of the gate consults no predicate but its own. -/
theorem Gate.label_of_can {g : Gate} {a m : Actor} {w : Where} {x : Subject}
    {read : Query → Outcome (List Row)} : ∀ l ∈ (g.can a m read w x).labels, l = w.label := by
  have hquery : ∀ l ∈ (g.existenceIn a m.environment m.identity w x none).labels, l = w.label := by
    unfold existenceIn
    split
    · simp [Ruling.ofOutcome]
    split
    · simp [Ruling.ofOutcome]
    simp only [Ruling.map, compileIn]
    split
    · simp [Ruling.ofOutcome]
    simp only [answer]
    split <;> simp [Where.consult]
  have henforce : ∀ table, ∀ l ∈ (g.enforce a m read table w x).labels, l = w.label := by
    intro table
    unfold enforce
    split
    · simp [Ruling.ofOutcome]
    simp only [Ruling.andThen]
    split <;> simpa [Ruling.ofOutcome] using hquery
  unfold can
  split
  · simp [Ruling.ofOutcome]
  · simp [Ruling.ofOutcome]
  · simp only [Ruling.andThen]
    split <;> simpa [Ruling.ofOutcome] using henforce _

namespace Strand.Course
variable {α : Type} {app : Application} {k₀ k : Strand α} {cs : List GateCall} {i : Invocation}

/-- Every call is one of the invocation to which the program belongs. -/
theorem exists_gateCall (h : Course app k₀ cs k) (hi : k₀.post.invocation = some i)
    (hs : i.environment = .server) : ∀ c ∈ cs, ∃ (site : Site) (p : Post),
      p.invocation = some i ∧ c = site.gateCall p c.gate c.guard c.subject := by
  induction h with
  | start => exact fun _ h => nomatch h
  | @move cs k k' ts new site site' hcourse hm ih =>
    obtain ⟨checked, hp, -⟩ := hcourse.records hi hs
    refine List.forall_mem_append.2 ⟨ih, fun c hc => ⟨site, k.post, by rw [hp]; exact hi, ?_⟩⟩
    unfold gateCalls at hc
    split at hc
    · obtain rfl := List.mem_singleton.1 hc
      rfl
    · cases hc

/-- A call consults no predicate but its own.  With an ordinary identity it does so once, if the
table of the predicate is declared. -/
theorem consulted (h : Course app k₀ cs k) (hi : k₀.post.invocation = some i)
    (hs : i.environment = .server) {c : GateCall} (hc : c ∈ cs) :
    (∀ l ∈ c.consulted, l = c.guard.label) ∧
      (Gate.bypasses i.identity = false → ∀ {table : String} {t : Table},
        c.guard.table = some table → c.gate.schema.table? table = some t →
        c.consulted = [c.guard.label]) := by
  obtain ⟨site, p, hp, hcall⟩ := h.exists_gateCall hi hs c hc
  rw [hcall]
  simp only [Site.gateCall, hp]
  exact ⟨Gate.label_of_can, fun hb _ _ hw ht => Gate.can_labels hs hb hw ht _⟩

end Strand.Course

section
variable {app : Application} {i : Invocation} {table : String} {t : Table} {w : Where}
  {custom : Option Body} {args : Json} {key : List (String × Json)} {cs : List GateCall} {p : Post}
  {r : Outcome Unit}

/-- Every write but an insert calls the gate first, about its own subject. -/
theorem Strand.Course.check_first (hs : i.environment = .server) {a : Action} (ha : a ≠ .insert)
    (h : Strand.Course app ⟨.ofInvocation i,
      .running (guardedWrite table w a custom i args)⟩ cs ⟨p, .running (.done r)⟩) :
    ∃ c rest, cs = c :: rest ∧ c.IsAutomatic i.gate w args ∧
      (∀ e, c.answer = .error e → rest = [] ∧ r = .error e) ∧
      (c.answer = .ok () → ∃ p₁, Strand.Course app
        ⟨p₁, .running ((custom.getD (writeRow table a)) i args)⟩ rest ⟨p, .running (.done r)⟩) := by
  have hfresh : (Post.ofInvocation i).checked.covers i.gate table (.ofJson args) = false :=
    Checked.covers_nil ..
  rcases h.of_guardedWrite ha with ⟨e, rfl, hc⟩ | ⟨check, rest, p₁, rfl, hc, hbody⟩
  · rcases hc.of_automaticCheck hs with ⟨hcov, -, -⟩ | ⟨-, site, rfl, hr, -⟩
    · exact absurd hcov (by simp [hfresh])
    · refine ⟨_, [], rfl, ⟨rfl, rfl, rfl⟩, fun e' he => ⟨rfl, hr.trans he⟩, fun hok => ?_⟩
      exact absurd (hr.trans hok) (by simp)
  · rcases hc.of_automaticCheck hs with ⟨hcov, -, -⟩ | ⟨-, site, rfl, hr, -⟩
    · exact absurd hcov (by simp [hfresh])
    · refine ⟨_, rest, rfl, ⟨rfl, rfl, rfl⟩, fun e he => ?_, fun _ => ⟨p₁, hbody⟩⟩
      exact absurd (hr.trans he) (by simp)

/-- The record of an invocation covers a subject exactly if some call has passed for it. -/
theorem Strand.Course.covers_iff {α : Type} {q : Program α} {x : α} {y : Subject}
    (h : Strand.Course app ⟨.ofInvocation i, .running q⟩ cs ⟨p, .running (.done x)⟩)
    (hs : i.environment = .server) (ht : i.gate.schema.table? table = some t)
    (hx : y.keyValues t = .ok key) (hk : ∀ e ∈ key, e.2.Proper)
    (hcalls : ∀ c ∈ cs, c.subject.toJson.Proper) :
    p.checked.covers i.gate table y = true ↔ ∃ c ∈ cs, c.Passed table (key.map Prod.snd) := by
  obtain ⟨checked, hp, hrec⟩ := h.records rfl hs
  have hp' : p.checked = checked := by rw [show p = _ from hp]
  have hnew : ∀ text, text ∉ (Post.ofInvocation i).checked := fun _ h => nomatch h
  rw [Checked.covers_of_key ht hx, hp', hrec]
  simp only [hnew, false_or]
  exact exists_congr fun c => and_congr_right fun hc => GateCall.records_textOf_iff hk (hcalls c hc)

/-- On the server, for a subject with a full key: an update, upsert or delete calls the gate about
its own subject before its body; an insert does so after its body has succeeded, exactly if no call
of the body has passed for its table and the values of its key.  An ordinary identity has the
predicate consulted once in each of these calls and in each call of the body that is made with it. -/
theorem automatic_check_left_out_iff (hs : i.environment = .server)
    (ht : i.gate.schema.table? table = some t) (hx : (Subject.ofJson args).keyValues t = .ok key)
    (hargs : args.Proper) {a : Action} (h : Strand.Course app ⟨.ofInvocation i,
      .running (guardedWrite table (w.withTable table) a custom i args)⟩ cs ⟨p, .running (.done r)⟩)
    (hcalls : ∀ c ∈ cs, c.subject.toJson.Proper) :
    (a ≠ .insert → ∃ c rest, cs = c :: rest ∧ c.IsAutomatic i.gate (w.withTable table) args ∧
      (∀ e, c.answer = .error e → rest = [] ∧ r = .error e) ∧
      (c.answer = .ok () → ∃ p₁, Strand.Course app
        ⟨p₁, .running ((custom.getD (writeRow table a)) i args)⟩ rest ⟨p, .running (.done r)⟩)) ∧
    (a = .insert → ∃ own p₁ result, Strand.Course app
        ⟨.ofInvocation i, .running ((custom.getD (writeRow table .insert)) i args)⟩ own
        ⟨p₁, .running (.done result)⟩ ∧
      (∀ e, result = .error e → cs = own ∧ r = .error e) ∧
      (result = .ok () →
        ((∃ c ∈ own, c.Passed table (key.map Prod.snd)) → cs = own ∧ r = .ok ()) ∧
        ((¬ ∃ c ∈ own, c.Passed table (key.map Prod.snd)) →
          ∃ c, cs = own ++ [c] ∧ c.IsAutomatic i.gate (w.withTable table) args ∧ r = c.answer))) ∧
    ∀ c ∈ cs, (∀ l ∈ c.consulted, l = c.guard.label) ∧
      (Gate.bypasses i.identity = false → c.guard = w.withTable table →
        (c.gate.schema.table? table).isSome → c.consulted = [w.label]) := by
  refine ⟨fun ha => h.check_first hs ha, fun ha => ?_, fun c hc => ?_⟩
  · subst ha
    rcases h.of_guardedInsert with ⟨e, rfl, hbody⟩ | ⟨own, check, p₁, rfl, hbody, hc⟩
    · exact ⟨cs, p, _, hbody, fun e' he => ⟨rfl, he⟩, fun hok => (nomatch hok)⟩
    · have hcov := hbody.covers_iff hs ht hx
        (Subject.proper_of_mem_keyValues hx (Subject.proper_ofJson hargs))
        fun c hc => hcalls c (List.mem_append_left _ hc)
      refine ⟨own, p₁, .ok (), hbody, fun e he => (nomatch he), fun _ => ?_⟩
      rw [← hcov]
      rcases hc.of_automaticCheck hs with ⟨hyes, rfl, rfl⟩ | ⟨hno, site, rfl, rfl, -⟩
      · exact ⟨fun _ => ⟨List.append_nil _, rfl⟩, fun hno => absurd hyes hno⟩
      · refine ⟨fun hyes => absurd (hno.symm.trans hyes) (by simp), fun _ => ?_⟩
        exact ⟨_, rfl, ⟨rfl, rfl, rfl⟩, rfl⟩
  · obtain ⟨hown, honce⟩ := h.consulted rfl hs hc
    refine ⟨hown, fun hb hw ht' => ?_⟩
    obtain ⟨t', ht'⟩ := Option.isSome_iff_exists.1 ht'
    rw [honce hb (by rw [hw]; rfl) ht', hw]
    rfl

end

/-- A subject that the gate lets pass is recorded. -/
theorem Site.can_post_of_passed {p : Post} {i : Invocation} {g : Gate} {w : Where} {x : Subject}
    {table text : String} (site : Site) (hi : p.invocation = some i) (hs : i.environment = .server)
    (hw : w.table = some table) (hk : g.subjectKey table x = .ok text)
    (he : (g.enforce p.scope.actor i.actor (site.run i.tx) table w x).result = .ok ()) :
    (site.can p g w x).2.1 = { p with checked := p.checked.mark text } := by
  obtain ⟨r, checked, journal, hcan, h⟩ := site.can_eq_enforce (g := g) (x := x) hi hs hw
  rw [he, hk] at h
  obtain ⟨-, rfl⟩ := h
  rw [hcan]

namespace ProjectTasks

/-- A new task. -/
def added : Row := .ofList
  [("project", .str "p"), ("number", .ofNat 3), ("author", .str "u1"), ("open", .bool true)]

/-- The body of an insert that asks about another task first, and goes on whatever it hears. -/
def askingAside : Body := fun i _ =>
  (Program.request (.can i.gate visible (subject 2))).bind fun _ =>
    .request (.mutate i.tx "task" .insert added)

def before : Site := .new 0 [.direct store]

/-- The site once the new task is there. -/
def after : Site := (before.answer .outside (.mutate invocation.tx "task" .insert added)).2.2

/-- The invocation once the call about the other task has passed. -/
def passedAside : Post := { Post.ofInvocation invocation with checked := ["task:[\"p\",2]"] }

theorem added_inserted : (before.answer passedAside
    (.mutate invocation.tx "task" .insert added)).1 = .ok () := by
  decide +kernel

theorem aside_passed : (before.answer (.ofInvocation invocation)
    (.can invocation.gate visible (subject 2))).2.1 = passedAside := by
  have hkey : invocation.gate.subjectKey "task" (subject 2) = .ok "task:[\"p\",2]" := by
    decide +kernel
  have hpass : (invocation.gate.enforce (Post.ofInvocation invocation).scope.actor invocation.actor
      (before.run invocation.tx) "task" visible (subject 2)).result = .ok () := by decide +kernel
  have hcan := before.can_post_of_passed (p := .ofInvocation invocation) rfl rfl rfl hkey hpass
  rw [Site.answer, hcan]
  rfl

theorem added_passed : (after.can passedAside invocation.gate visible
    (.ofJson (.ofRow added))).1 = .ok () := by
  decide +kernel

theorem proper_added : (Json.ofRow added).Proper := by
  refine Json.proper_ofRow fun f hf => ?_
  simp only [List.mem_cons, List.not_mem_nil, or_false] at hf
  rcases hf with rfl | rfl | rfl | rfl
  exacts [.str _, .num trivial, .str _, .bool _]

theorem proper_subject (n : Nat) : (subject n).toJson.Proper := by
  refine Json.proper_ofRow fun f hf => ?_
  simp only [List.mem_cons, List.not_mem_nil, or_false] at hf
  rcases hf with rfl | rfl
  exacts [.str _, .num trivial]

end ProjectTasks

open ProjectTasks in
/-- A call that has passed for one task does not stand in for the check of another one. -/
theorem automatic_check_of_other_task : ∃ cs p own p₁ c,
    Strand.Course ⟨.empty, 0⟩ ⟨.ofInvocation invocation, .running
      (guardedWrite "task" visible .insert (some askingAside) invocation (.ofRow added))⟩ cs
      ⟨p, .running (.done (.ok ()))⟩ ∧
    Strand.Course ⟨.empty, 0⟩ ⟨.ofInvocation invocation, .running
      (askingAside invocation (.ofRow added))⟩ own ⟨p₁, .running (.done (.ok ()))⟩ ∧
    cs = own ++ [c] ∧ c.IsAutomatic invocation.gate visible (.ofRow added) := by
  have hstart := @Strand.Course.start _ ⟨.empty, 0⟩ ⟨.ofInvocation invocation, .running
    (guardedWrite "task" visible .insert (some askingAside) invocation (.ofRow added))⟩
  have haside := hstart.ask before
  rw [aside_passed] at haside
  have hwritten := haside.ask before
  rw [added_inserted] at hwritten
  have hlooked := hwritten.ask after
  have hasked : Strand.Course ⟨.empty, 0⟩ _
      [before.gateCall (.ofInvocation invocation) invocation.gate visible (subject 2),
        after.gateCall passedAside invocation.gate visible (.ofJson (.ofRow added))]
      ⟨_, .running (.done (after.can passedAside invocation.gate visible
        (.ofJson (.ofRow added))).1)⟩ := hlooked.ask after
  rw [added_passed] at hasked
  obtain ⟨own, p₁, result, hbody, herror, hok⟩ := (@automatic_check_left_out_iff ⟨.empty, 0⟩
    invocation "task" table visible (some askingAside) (.ofRow added) _ _ _ _ rfl rfl rfl
    proper_added .insert hasked fun c hc => by
      rcases List.mem_pair.1 hc with rfl | rfl
      · exact proper_subject 2
      · exact Subject.proper_ofJson proper_added).2.1 rfl
  have hresult : result = .ok () := by
    cases result with
    | ok u => rfl
    | error e => exact absurd (herror e rfl).2 (by simp)
  subst hresult
  -- The body makes one call, but there were two.
  have hone : own.length = 1 := by
    obtain ⟨site, rest, rfl, hrest⟩ := hbody.of_ask
    obtain ⟨site', rest', rfl, hdone⟩ := hrest.of_ask
    obtain ⟨rfl, -⟩ := hdone.of_done
    rfl
  by_cases hpassed : ∃ c ∈ own, c.Passed "task" [.str "p", .ofNat 3]
  · have hlength := congrArg List.length ((hok rfl).1 hpassed).1
    rw [hone] at hlength
    cases hlength
  · obtain ⟨c, hcs, hauto, -⟩ := (hok rfl).2 hpassed
    exact ⟨_, _, own, p₁, c, hasked, hbody, hcs, hauto⟩

end RowGuard
