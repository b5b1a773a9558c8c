import Freekick.Refs.Ops

/-!
# Requests that keep the balance

While a handler runs, the arguments of its client keep the items of the request alive.  Every
handler leaves a server in balance, with the arguments still there, whether it succeeds or gives
up.
-/

namespace Freekick.Refs

open Lib Lib.Call FkItems

/-- A server in balance whose client has these arguments. -/
structure Serves (right : Prop) (client : Nat) (args : List Nat) (svr : FkSvr) (extra : List Nat)
    (fresh : Set Nat) : Prop where
  ok : Ok right svr extra fresh
  conn : ∃ conn, svr.conns.find client = some conn ∧ conn.args = args

/-- The call ends, and the client is served as before. -/
def Serving {A : Type} (right : Prop) (client : Nat) (args : List Nat) (act : Act FkSvr A)
    (svr : FkSvr) : Prop :=
  Act.Ends act svr (fun _ after => Serves right client args after [] ∅) fun after =>
    Serves right client args after [] ∅

variable {right : Prop} {svr final : FkSvr} {extra extra' : List Nat} {fresh fresh' : Set Nat}
  {client key : Nat} {args : List Nat}

/-! ## Rules -/

namespace Serves

theorem of_rest (serves : Serves right client args svr extra fresh) (rest : Rest svr final)
    (ok : Ok right final extra' fresh') :
    Serves right client args final extra' fresh' := by
  obtain ⟨conn, found, same⟩ := serves.conn
  exact ⟨ok, conn, by rw [rest.conns]; exact found, same⟩

/-- Arguments are strings that the request holds. -/
theorem arg {arg : Nat} (serves : Serves right client args svr extra fresh) (member : arg ∈ args) :
    svr.items.content.IsStr arg ∧ Held svr fresh arg ∧ arg ∉ fresh := by
  obtain ⟨conn, found, rfl⟩ := serves.conn
  exact ⟨serves.ok.args client conn found arg member, .inr ⟨client, conn, found, member⟩,
    serves.ok.not_fresh (Ok.outer_arg found member)⟩

theorem db (serves : Serves right client args svr extra fresh) :
    ∃ idx, dbOf client svr = .ok (false, idx) svr ∧ idx < svr.dbcnt := by
  obtain ⟨conn, found, _⟩ := serves.conn
  have looked : connOf client svr = .ok conn svr := by
    unfold connOf
    rw [found]
  exact ⟨conn.out.dbIdx, (Act.bind_ok looked).trans rfl, serves.ok.dbIdx client conn found⟩

theorem selected {idx : Nat} (serves : Serves right client args svr extra fresh)
    (db : dbOf client svr = .ok (false, idx) svr) :
    ∃ conn, svr.conns.find client = some conn ∧ idx = conn.out.dbIdx := by
  obtain ⟨conn, found, _⟩ := serves.conn
  have looked : connOf client svr = .ok conn svr := by
    unfold connOf
    rw [found]
  have same := ((Act.bind_ok looked).trans rfl).symm.trans db
  exact ⟨conn, found, (Prod.mk.inj (Outcome.ok.inj same).1).2.symm⟩

end Serves

theorem getArg_ok {index : Nat} (inside : index < args.length) :
    ∃ arg, (∀ svr, getArg args index svr = .ok arg svr) ∧ arg ∈ args ∧ args[index]? = some arg := by
  refine ⟨args[index], fun svr => ?_, List.getElem_mem inside, List.getElem?_eq_getElem inside⟩
  unfold getArg
  rw [List.getElem?_eq_getElem inside]
  rfl

namespace Serving

theorem of_ok {A : Type} {act : Act FkSvr A} {value : A} (called : act svr = .ok value final)
    (serves : Serves right client args final [] ∅) : Serving right client args act svr :=
  Act.Ends.of_ok called serves

theorem after {A B : Type} {act : Act FkSvr A} {next : A → Act FkSvr B} {value : A} {middle : FkSvr}
    (called : act svr = .ok value middle) (later : Serving right client args (next value) middle) :
    Serving right client args (act >>= next) svr :=
  Act.Ends.after called later

theorem bind {A B : Type} {act : Act FkSvr A} {next : A → Act FkSvr B}
    (first : Serving right client args act svr)
    (later : ∀ value after, Serves right client args after [] ∅ →
      Serving right client args (next value) after) :
    Serving right client args (act >>= next) svr :=
  Act.Ends.bind first later

/-- After a look the client is served as before. -/
theorem look {A B : Type} {act : Act FkSvr A} {next : A → Act FkSvr B} {value : A}
    (serves : Serves right client args svr extra fresh)
    (reads : Reads right extra fresh act svr value)
    (later : ∀ casts, Serves right client args { svr with casts := casts } extra fresh →
      Serving right client args (next value) { svr with casts := casts }) :
    Serving right client args (act >>= next) svr := by
  obtain ⟨casts, called, still⟩ := reads
  exact after called (later casts ⟨still, serves.conn⟩)

end Serving

/-- Another reply, or none; the crash is a state. -/
theorem reply_ends (add : Act Work Unit) (serves : Serves right client args svr [] ∅) :
    Act.Ends (reply client add) svr (fun _ after => Serves right client args after [] ∅ ∧
      after.items = svr.items) fun after => Serves right client args after [] ∅ := by
  obtain ⟨conn, found, rfl⟩ := serves.conn
  have looked : connOf client svr = .ok conn svr := by
    unfold connOf
    rw [found]
  have written : ∀ wbuf, Serves right client conn.args
      { svr with conns := svr.conns.put client { conn with out := { conn.out with wbuf := wbuf } } }
      [] ∅ := by
    intro wbuf
    refine ⟨serves.ok.withConn (by rw [found]; rfl) (serves.ok.args client conn found)
      (serves.ok.names client conn found) (serves.ok.dbIdx client conn found) fun _ => rfl, _,
      Function.update_self .., rfl⟩
  refine Act.Ends.after looked (Act.Ends.after rfl ?_)
  dsimp only [id]
  cases add ⟨Freekick.fkSvrInit svr.dbcnt svr.blogOn svr.clock svr.junk, conn.out⟩ with
  | ok value work => exact ⟨written work.out.wbuf, rfl⟩
  | err work => exact written work.out.wbuf
  | fault =>
      exact ⟨⟨serves.ok.exact, serves.ok.dicts, serves.ok.there, serves.ok.positive, serves.ok.args,
        serves.ok.names, serves.ok.dbIdx,
      serves.ok.casts⟩, serves.conn⟩

theorem reply_serving (add : Act Work Unit) (serves : Serves right client args svr [] ∅) :
    Serving right client args (reply client add) svr :=
  (reply_ends add serves).imp (fun _ _ both => both.1) fun _ => id

end Freekick.Refs
