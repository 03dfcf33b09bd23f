import RowGuard.Schedule.Site

/-! # Running a program until it has to wait

A program runs without interruption until it is finished or has to wait.  A transaction begins at
once if the lock is free and nobody has been waiting longer; a mutator that may take no time at all
is started but not waited for.

So that a program that never has to wait cannot keep all others from running, each turn comes with a
credit.  Whatever could have made the program wait costs one when it does not.  Without credit the
program pauses at the next such point.
-/
namespace RowGuard

inductive Stop (α : Type) where
  | finished (a : α)
  | asleep (ms : Nat) (next : Program α)
  | hung
  | atLock (database : Nat) (next : Outcome TxRef → Program α)
  | calling (c : Call) (next : Outcome Unit → Program α)
  | aside (next : Program α)
  | paused (p : Program α)

/-- A turn of running code: what is left of its credit, where it runs from, and the site. -/
structure Turn where
  credit : Nat
  post : Post
  site : Site

/-- The credit at the beginning of a turn. -/
def Turn.fullCredit : Nat := 128

/-- What an application is made of, as far as running code depends on it. -/
structure Application where
  mutators : Dict Body
  /-- The time that a mutator may take, in milliseconds. -/
  timeout : Nat

namespace Application

def unknown (name : String) : Failure := .invalid ("unknown mutator " ++ name)

def overrun (a : Application) (name : String) : Failure := .timeout name a.timeout

/-- The program of a call. -/
def program (a : Application) (c : Call) : Program (Outcome Unit) :=
  match a.mutators.get? c.name with
  | some body => body c.invocation c.args
  | none => .fail (unknown c.name)

end Application

namespace Program
variable {α : Type}

/-- Run a program until it has to wait.  `queues` are the databases for which others are waiting. -/
def advance (app : Application) (queues : List Nat) : Program α → Turn → Stop α × Turn
  | done a, t => (.finished a, t)
  | ask r next, t =>
    let (x, post, site) := t.site.answer t.post r
    (next x).advance app queues { t with post, site }
  | sleep ms next, t =>
    match t.credit with
    | 0 => (.paused (.sleep ms next), t)
    | credit + 1 =>
      if ms = 0 then next.advance app queues { t with credit } else (.asleep ms next, t)
  | hang, t => (.hung, t)
  | begin database next, t =>
    match t.site.begin? database, t.credit with
    | some (.error e, site), _ => (next (.error e)).advance app queues { t with site }
    | _, 0 => (.paused (.begin database next), t)
    | some (.ok tx, site), credit + 1 =>
      if queues.contains database then (.atLock database next, t)
      else (next (.ok tx)).advance app queues { t with credit, site }
    | none, _ + 1 => (.atLock database next, t)
  | call c next, t =>
    if app.mutators.contains c.name then
      match app.timeout, t.credit with
      | 0, credit + 1 =>
        (next (.error (app.overrun c.name))).advance app queues
          { t with credit, site := t.site.post (.mutation c) }
      | _, _ => (.calling c next, t)
    else (next (.error (Application.unknown c.name))).advance app queues t
  | stepAside next, t => (.aside next, t)

end Program
end RowGuard
