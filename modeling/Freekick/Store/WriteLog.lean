import Freekick.Store.Dispatch
import Freekick.Store.OneKey
import Freekick.Store.Space
import Freekick.Store.System

/-!
# Writes and the log

`fk_conn_proc_cmd` appends a command to the log after its handler has succeeded.  A
handler that changes a database queues its reply last; when that reply is refused, the
change is made and the command is not logged.  What is logged is the command when its
arguments have no zero byte and fit into the buffer of `fk_blog_append`.
-/

namespace Freekick

open Lib.Call

/-! ## What a command changes -/

namespace Keyspace

variable {space : Keyspace} {key : Bytes}

end Keyspace

namespace Cmd

/-- The commands of the type `FK_PROTO_READ`. -/
def isRead : Cmd → Bool
  | .mget _ | .get _ | .existing _ | .hget _ _ | .llen _ | .save => true
  | _ => false

section Changed

variable {dbcnt idx : Nat} {clock : Nat → Int} {spaces : Nat → Keyspace} {cmd : Cmd}
  {answer : Answer}

/-- Where a refused reply leaves a command that is no `MGET` does not depend on the call. -/
theorem cut_of_write (writes : cmd.isRead = false) (count : Nat) :
    cmd.cut count = cmd.cut 0 ∧ (cmd.cut 0).isRead = false := by
  cases cmd with
  | mget => cases writes
  | pop => exact ⟨rfl, rfl⟩
  | _ => exact ⟨rfl, writes⟩

end Changed

end Cmd

/-! ## Every write command -/

section Writes

variable {good : Bytes → Prop} {fkCmdEval : Handler} {work : Work} {args : List Bytes}
  {pto : FkProto}

/-- The names of the commands that only read. -/
theorem Asks.isRead {name : Bytes} {rest : List Bytes} {cmd : Cmd} (asks : Asks name rest cmd)
    (reads : cmd.isRead = true) :
    name ∈ ["MGET", "GET", "EXISTS", "HGET", "LLEN", "SAVE"].map ascii := by
  cases asks with
  | mget | get | existing | hget | llen | save => decide
  | _ => cases reads

theorem read_isRead {rest : List Bytes} (member : pto ∈ protos fkCmdEval)
    (writes : pto.type = .write) :
    (Cmd.read pto.name rest).isRead = false := by
  refine Bool.eq_false_iff.mpr fun reads => ?_
  have named := (read_asks pto.name rest).isRead reads
  cases pto, member using protos_cases with
  | mget | get | existing | hget | llen | save | eval => cases writes
  | _ => exact absurd named (by decide)

theorem write_ne_eval (member : pto ∈ protos fkCmdEval) (writes : pto.type = .write) :
    pto.name ≠ ascii "EVAL" := by
  cases pto, member using protos_cases with
  | eval => cases writes
  | _ => decide

end Writes

end Freekick
