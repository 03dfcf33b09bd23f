import RowGuard.Mutation.Mutators
import RowGuard.Proofs.Program.Prediction
import RowGuard.Proofs.Schedule.DirectSite
import RowGuard.Proofs.Schedule.SingleCall

/-! # The client predicts the server

A mutator is called on the server and on a client, for the same identity, on equal tables and at the
same time.  If the call on the server succeeds, then so does the one on the client, and both leave
equal tables behind.
-/
namespace RowGuard

/-- The transaction is open in a store of the schema, with the tables. -/
def Site.Offers (site : Site) (tx : TxRef) (schema : Schema) (W : Tables) : Prop :=
  ∃ s, site.HasStore tx.database s ∧ s.schema = schema ∧ s.Held tx.handle W

namespace Site
variable {site : Site} {tx : TxRef} {schema : Schema} {W : Tables} {p : Post}

/-- A write changes the tables of the transaction, or fails and leaves them. -/
theorem Offers.answer_mutate (h : site.Offers tx schema W) (p : Post) (table : String) (a : Action)
    (row : Row) : ∃ databases,
      site.answer p (.mutate tx table a row) =
        ((schema.write site.clock W table a row).map fun _ => (), p, { site with databases }) ∧
      ({ site with databases } : Site).Offers tx schema
        ((schema.write site.clock W table a row).toOption.getD W) := by
  obtain ⟨s, hs, rfl, hh⟩ := h
  rw [hs.answer_mutate, hh.mutate]
  cases hw : s.schema.write site.clock W table a row with
  | ok W' => exact ⟨_, rfl, _, hs.withStore _, rfl, hh.setTables W'⟩
  | error e => exact ⟨_, rfl, _, hs.withStore _, rfl, hh⟩

theorem Offers.of_databases (h : site.Offers tx schema W) {site' : Site}
    (hd : site'.databases = site.databases) : site'.Offers tx schema W := by
  obtain ⟨s, hs, hschema, hh⟩ := h
  exact ⟨s, by rw [HasStore, hd]; exact hs, hschema, hh⟩

/-- A gate writes at most into the journal. -/
theorem can_site (site : Site) (p : Post) (g : Gate) (w : Where) (x : Subject) :
    ∃ journal, (site.can p g w x).2.2 = { site with journal } := by
  unfold can
  cases p.invocation with
  | none => exact ⟨site.journal, rfl⟩
  | some i =>
    dsimp only
    split <;> exact ⟨_, rfl⟩

/-- On a client the gate opens, and nothing is recorded. -/
theorem can_of_client {i : Invocation} (hi : p.invocation = some i) (hc : i.environment = .client)
    (site : Site) (g : Gate) (w : Where) (x : Subject) : site.can p g w x = (.ok (), p, site) := by
  have hgate : g.can p.scope.actor i.actor (site.run i.tx) w x = .ofOutcome (.ok none) := by
    simp [Gate.can, Invocation.actor, hc]
  simp [can, hi, hgate, Ruling.ofOutcome, note]

theorem Offers.drop (h : site.Offers tx schema W) {other : TxRef} (ho : other ≠ tx) :
    (site.drop other).Offers tx schema W := by
  obtain ⟨s, hs, hschema, hh⟩ := h
  have hdrop := hs.after_drop other
  by_cases hd : other.database = tx.database
  · have hne : other.handle ≠ tx.handle := fun he => ho (by
      cases other
      cases tx
      simp_all)
    have hstay : s.drop other.handle = s := hh.release_of_ne hne
    rw [if_pos hd, hstay] at hdrop
    exact ⟨s, hdrop, hschema, hh⟩
  · rw [if_neg hd] at hdrop
    exact ⟨s, hdrop, hschema, hh⟩

theorem Offers.foldl_drop (h : site.Offers tx schema W) {others : List TxRef}
    (ho : ∀ x ∈ others, x ≠ tx) : (others.foldl Site.drop site).Offers tx schema W := by
  induction others generalizing site with
  | nil => exact h
  | cons other others ih =>
    obtain ⟨hne, hrest⟩ := List.forall_mem_cons.1 ho
    exact ih (h.drop hne) hrest

end Site

namespace Program
variable {app : Application} {queues : List Nat} {tx tx' : TxRef} {schema : Schema} {W : Tables}
  {p p' : Program (Outcome Unit)}

theorem Prompt.advance (h : p.Prompt tx) (app : Application) (queues : List Nat) (t : Turn)
    (ho : t.site.Offers tx schema W) : ∃ r u, p.advance app queues t = (.finished r, u) ∧
      u.site.outbox = t.site.outbox ∧ ∃ V, u.site.Offers tx schema V := by
  induction h generalizing t W with
  | done r => exact ⟨r, t, rfl, rfl, W, ho⟩
  | mutate table a row _ ih =>
    obtain ⟨databases, hanswer, ho'⟩ := ho.answer_mutate t.post table a row
    obtain ⟨r, u, hadv, hbox, hV⟩ := ih _ ⟨t.credit, t.post, { t.site with databases }⟩ ho'
    exact ⟨r, u, by simpa only [Program.advance, hanswer] using hadv, hbox, hV⟩
  | can g w x _ ih =>
    obtain ⟨journal, hsite⟩ := t.site.can_site t.post g w x
    obtain ⟨r, u, hadv, hbox, hV⟩ := ih (t.site.can t.post g w x).1
      ⟨t.credit, (t.site.can t.post g w x).2.1, { t.site with journal }⟩ (ho.of_databases rfl)
    exact ⟨r, u, by simpa only [Program.advance, Site.answer, hsite] using hadv, hbox, hV⟩
  | checked _ ih =>
    obtain ⟨r, u, hadv, hrest⟩ := ih t.post.checked t ho
    exact ⟨r, u, hadv, hrest⟩

/-- If a program on the server succeeds, then so does the one that it is predicted by, and the
transactions end with the same tables. -/
theorem Predicts.advance (h : p.Predicts tx tx' p') {t u : Turn} (t' : Turn)
    (ho : t.site.Offers tx schema W) (ho' : t'.site.Offers tx' schema W)
    (hclock : t.site.clock = t'.site.clock)
    (hclient : ∃ i, t'.post.invocation = some i ∧ i.environment = .client)
    (hok : p.advance app queues t = (.finished (.ok ()), u)) :
    ∃ u' V, p'.advance app queues t' = (.finished (.ok ()), u') ∧ u.site.Offers tx schema V ∧
      u'.site.Offers tx' schema V := by
  -- both transactions hold `W`, which only a write changes, and it changes it on both sides
  induction h generalizing t t' W with
  | ok =>
    cases hok
    exact ⟨t', W, rfl, ho, ho'⟩
  | failed e p' => cases hok
  | mutate table a row _ ih =>
    obtain ⟨databases, hanswer, hnext⟩ := ho.answer_mutate t.post table a row
    obtain ⟨databases', hanswer', hnext'⟩ := ho'.answer_mutate t'.post table a row
    rw [← hclock] at hanswer' hnext'
    simp only [Program.advance, hanswer] at hok
    simp only [Program.advance, hanswer']
    exact ih _ (t := ⟨t.credit, t.post, { t.site with databases }⟩) _ hnext hnext' rfl hclient hok
  | can g g' w x _ ih =>
    obtain ⟨i, hi, hc⟩ := hclient
    obtain ⟨journal, hsite⟩ := t.site.can_site t.post g w x
    simp only [Program.advance, Site.answer, hsite] at hok
    simp only [Program.advance, Site.answer, Site.can_of_client hi hc]
    have hnext : ({ t.site with journal } : Site).Offers tx schema W := ho.of_databases rfl
    exact ih _ (t := ⟨t.credit, _, { t.site with journal }⟩) _ hnext ho' hclock ⟨i, hi, hc⟩ hok
  | check g w x _ ih =>
    obtain ⟨journal, hsite⟩ := t.site.can_site t.post g w x
    simp only [Program.advance, Site.answer, hsite] at hok
    have hnext : ({ t.site with journal } : Site).Offers tx schema W := ho.of_databases rfl
    exact ih _ (t := ⟨t.credit, _, { t.site with journal }⟩) _ hnext ho' hclock hclient hok
  | checked _ ih => exact ih _ _ ho ho' hclock hclient hok

end Program

/-- How a body ends on the server and on a client, in one turn on either. -/
structure Body.Ends (schema : Schema) (tx tx' : TxRef) (r r' : Outcome Unit) (u u' : Turn)
    (V V' : Tables) : Prop where
  left : u.site.Offers tx schema V
  right : u'.site.Offers tx' schema V'
  predicts : r = .ok () → r' = .ok () ∧ V = V'

/-- A predictable body that is run on equal tables, at the same time, comes to its ends. -/
theorem Body.Predictable.advance {body : Body} (hb : body.Predictable) {i i' : Invocation}
    (hi : i.Mirrors i') (app : Application) (args : Json) {site site' : Site} {schema : Schema}
    {W : Tables} (ho : site.Offers i.tx schema W) (ho' : site'.Offers i'.tx schema W)
    (hclock : site.clock = site'.clock) : ∃ r r' u u' V V',
      (body i args).advance app [] ⟨Turn.fullCredit, .ofInvocation i, site⟩ = (.finished r, u) ∧
      (body i' args).advance app [] ⟨Turn.fullCredit, .ofInvocation i', site'⟩ =
        (.finished r', u') ∧
      u.site.outbox = site.outbox ∧ u'.site.outbox = site'.outbox ∧
      Body.Ends schema i.tx i'.tx r r' u u' V V' := by
  obtain ⟨r, u, hadv, hu, V, hV⟩ := (hb.prompt i args).advance app []
    ⟨Turn.fullCredit, .ofInvocation i, site⟩ ho
  obtain ⟨r', u', hadv', hu', V', hV'⟩ := (hb.prompt i' args).advance app []
    ⟨Turn.fullCredit, .ofInvocation i', site'⟩ ho'
  cases r with
  | error e => exact ⟨_, _, u, u', V, V', hadv, hadv', hu, hu', hV, hV', fun h => by cases h⟩
  | ok =>
    obtain ⟨v, V, hv, hV, hV'⟩ := (hb.predicts i i' args hi).advance
      ⟨Turn.fullCredit, .ofInvocation i', site'⟩ ho ho' hclock ⟨i', rfl, hi.client⟩ hadv
    obtain ⟨hr, rfl⟩ := Prod.mk.inj (hadv'.symm.trans hv)
    obtain rfl := Stop.finished.inj hr
    exact ⟨_, _, u, u', V, V, hadv, hadv', hu, hu', hV, hV', fun _ => ⟨rfl, rfl⟩⟩

/-- The mutators of a caller on the server, and those of the same caller on a client. -/
structure Mutators.Mirrors (m m' : Mutators) : Prop where
  server : m.environment = .server
  client : m'.environment = .client
  identity : m.identity = m'.identity

/-- Two sites at the same time, where nothing waits to be started, with transactions that are open
on equal tables. -/
structure Site.Counterparts (site site' : Site) (tx tx' : TxRef) (schema : Schema) (W : Tables) :
    Prop where
  left : site.Offers tx schema W
  right : site'.Offers tx' schema W
  clock : site.clock = site'.clock
  idle : site.outbox = []
  idle' : site'.outbox = []

section Calls
variable {app : Application} {m : Mutators} {name : String} {body : Body} {args : Json} {site : Site}
  {tx : TxRef} {schema : Schema}

theorem call_fails (h : app.mutators.get? name = none ∨ app.timeout = 0) (m : Mutators) (args : Json)
    (site : Site) (tx : TxRef) : ∃ e b,
      Background.runOne app (m.call tx name args) (.holding site [tx]) = (some (.error e), b) := by
  obtain ⟨e, u, hadv, -⟩ := Program.advance_call_of_futile
    (c := ⟨m.invocation tx, name, args⟩) h .done [] (t := ⟨Turn.fullCredit, .outside, site⟩)
    (Nat.succ_ne_zero 127)
  obtain ⟨b, hb⟩ := Background.runOne_of_finished [tx] hadv
  exact ⟨e, b, hb⟩

/-- A call of a body that comes to its end in one turn has the result of the body, and leaves its
transaction open. -/
theorem call_of_body (hget : app.mutators.get? name = some body) (htimeout : app.timeout ≠ 0)
    (hbox : site.outbox = []) {r : Outcome Unit} {u : Turn}
    (hbody : (body (m.invocation tx) args).advance app []
      ⟨Turn.fullCredit, .ofInvocation (m.invocation tx), site⟩ = (.finished r, u))
    (hu : u.site.outbox = []) : ∃ b,
      Background.runOne app (m.call tx name args) (.holding site [tx]) = (some r, b) ∧
        ∀ V, u.site.Offers tx schema V → b.site.Offers tx schema V := by
  have hcall := Program.advance_call (c := ⟨m.invocation tx, name, args⟩) hget htimeout .done []
    ⟨Turn.fullCredit, .outside, site⟩
  rw [← Application.program_of_get? (c := ⟨m.invocation tx, name, args⟩) hget] at hbody
  obtain ⟨b, hb, hsite⟩ :=
    Background.runOne_of_call [tx] hcall (Nat.succ_ne_zero 127) hbox hbody hu rfl hu
  refine ⟨b, hb, fun V hV => hsite ▸ hV.foldl_drop fun x hx => ?_⟩
  have hne := (List.mem_filter.1 hx).2
  rintro rfl
  simp at hne

end Calls

/-- A client predicts the server.  Whatever models there are whose mutations follow plans, whoever
calls which mutator, and whatever the tables: if the call succeeds on the server, then it succeeds on
a client, and leaves the same tables there; and what fails on a client fails on the server. -/
theorem client_predicts_server {models : List Model} (hm : ∀ m ∈ models, m.Planned) (timeout : Nat)
    {server client : Mutators} (hcallers : server.Mirrors client) {site site' : Site} {tx tx' : TxRef}
    {schema : Schema} {W : Tables} (hsites : site.Counterparts site' tx tx' schema W) (name : String)
    (args : Json) : ∃ r r' b b',
      Background.runOne ⟨(Models.ofList models).mutators, timeout⟩ (server.call tx name args)
        (.holding site [tx]) = (some r, b) ∧
      Background.runOne ⟨(Models.ofList models).mutators, timeout⟩ (client.call tx' name args)
        (.holding site' [tx']) = (some r', b') ∧
      (r = .ok () → r' = .ok () ∧ ∃ V, b.site.Offers tx schema V ∧ b'.site.Offers tx' schema V) ∧
      ∀ e', r' = .error e' → ∃ e, r = .error e := by
  generalize happ : (⟨(Models.ofList models).mutators, timeout⟩ : Application) = app
  by_cases hfails : app.mutators.get? name = none ∨ app.timeout = 0
  · obtain ⟨e, b, hb⟩ := call_fails hfails server args site tx
    obtain ⟨e', b', hb'⟩ := call_fails hfails client args site' tx'
    exact ⟨_, _, b, b', hb, hb', fun h => by simp at h, fun _ _ => ⟨e, rfl⟩⟩
  obtain ⟨hknown, htimeout⟩ := not_or.1 hfails
  obtain ⟨body, hget⟩ := Option.ne_none_iff_exists'.1 hknown
  have hbody : body.Predictable := Models.mutator_predictable hm (happ ▸ hget)
  have hmirror : (server.invocation tx).Mirrors (client.invocation tx') :=
    ⟨hcallers.server, hcallers.client, hcallers.identity⟩
  obtain ⟨r, r', u, u', V, V', hadv, hadv', hu, hu', hends⟩ :=
    hbody.advance hmirror app args hsites.left hsites.right hsites.clock
  obtain ⟨b, hb, hopen⟩ := call_of_body hget htimeout hsites.idle hadv (hu.trans hsites.idle)
  obtain ⟨b', hb', hopen'⟩ := call_of_body hget htimeout hsites.idle' hadv' (hu'.trans hsites.idle')
  refine ⟨r, r', b, b', hb, hb', fun hr => ?_, fun e' hr' => ?_⟩
  · obtain ⟨hr', rfl⟩ := hends.predicts hr
    exact ⟨hr', V, hopen V hends.left, hopen' V hends.right⟩
  · cases r with
    | ok => exact absurd ((hends.predicts rfl).1.symm.trans hr') (by simp)
    | error e => exact ⟨e, rfl⟩

/-! Notes whose inserts write a second row beside the note, and ask for the permission to have it. -/
namespace Notebook

def schema : Schema := Schema.empty.addTable
  ⟨"note", [⟨"id", .string, false, none⟩, ⟨"author", .string, false, none⟩], ["id"]⟩

def note (id author : String) : Row := .ofList [("id", .str id), ("author", .str author)]

/-- Whoever asks may write the notes of which they are the author. -/
def own : Where := .new fun _ _ auth => auth.map fun a => .rows (.columnIs "author" (.str a.id))

def plan (auth : Option Identity) (args : Json) : List Body.Step :=
  let author := (auth.map (·.id)).getD "nobody"
  [.write "note" .insert (args.toRow?.getD .empty), .write "note" .upsert (note "index" author),
    .can none (own.withTable "note") (.id (.str "index"))]

def model : Model := (Model.table "note" own).mutation "insert" (.ofPlan plan)

def app : Application := ⟨(Models.ofList [model]).mutators, 1000⟩

def server : Mutators := ⟨some (.ofId "u1"), .server, ⟨.server, schema, true⟩, some ⟨none, 0⟩⟩

def client : Mutators := ⟨some (.ofId "u1"), .client, ⟨.client, schema, true⟩, none⟩

def store : Store := (Store.new schema).after [.seed 0 "note" [note "a" "u2"], .begin]

def site : Site := .new 5 [.direct store]

/-- What becomes of an insert. -/
def insert (m : Mutators) : Option (Outcome Unit) × Background :=
  Background.runOne app (m.call ⟨0, 0⟩ "note.insert" (.ofRow (note "b" "u1")))
    (.holding site [⟨0, 0⟩])

theorem model_planned : ∀ m ∈ [model], m.Planned := by
  intro m hm name body hget
  obtain rfl := List.mem_singleton.1 hm
  have hcustom : "insert" = name ∧ Body.ofPlan plan = body := by
    simpa [model, Model.table, Model.mutation, Dict.get?_insert] using hget
  exact ⟨plan, hcustom.2.symm⟩

end Notebook

open Notebook in
theorem client_predicts_server_on_notes : (insert server).1 = some (.ok ()) ∧
    (insert client).1 = some (.ok ()) ∧ ∃ V, (insert server).2.site.Offers ⟨0, 0⟩ schema V ∧
      (insert client).2.site.Offers ⟨0, 0⟩ schema V := by
  have hpassed : (insert server).1.map Except.isOk = some true := by decide +kernel
  have hopen : site.Offers ⟨0, 0⟩ schema store.committed := ⟨store, rfl, rfl, rfl, rfl, by decide⟩
  have hcallers : server.Mirrors client := ⟨rfl, rfl, rfl⟩
  obtain ⟨r, r', b, b', hb, hb', hpredict, -⟩ := client_predicts_server model_planned 1000 hcallers
    ⟨hopen, hopen, rfl, rfl, rfl⟩ "note.insert" (.ofRow (note "b" "u1"))
  have hserver : insert server = (some r, b) := hb
  have hclient : insert client = (some r', b') := hb'
  have hr : r = .ok () := by
    rw [hserver] at hpassed
    cases r with
    | ok => rfl
    | error e => simp [Except.isOk, Except.toBool] at hpassed
  obtain ⟨hr', V, hV, hV'⟩ := hpredict hr
  rw [hserver, hclient, hr, hr']
  exact ⟨rfl, rfl, V, hV, hV'⟩

end RowGuard
