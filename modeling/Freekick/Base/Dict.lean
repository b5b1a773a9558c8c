import Freekick.Base.Util
import Freekick.Lib.Buckets

/-!
# Dictionaries: `fk_dict.c`

A table of chained buckets whose size is a power of two.  The table doubles when
half of it is used; the check stands in `fk_dict_add` before the search, so also
a failing add can grow it.
-/

namespace Freekick

open Lib.Buckets

def fkDictInitSize : Nat := 4

/-- `FK_DICT_OK` and `FK_DICT_ERR`. -/
inductive FkDictRt where
  | ok
  | err
  deriving DecidableEq, Repr

/-- The operations of `fk_elt_op_t` that decide where an element is; the others
copy and free references. -/
structure FkEltOp (K : Type) where
  keyHash : K → UInt32
  keyCmp : K → K → Int

structure FkDict (K V : Type) where
  size : Nat
  sizeMask : Nat
  used : Nat
  limit : Nat
  buckets : List (Option (List (K × V)))
  deriving DecidableEq, Repr

variable {K V : Type}

def fkDictInit : FkDict K V where
  size := fkDictInitSize
  sizeMask := fkDictInitSize - 1
  limit := fkDictInitSize >>> 1
  used := 0
  buckets := List.replicate fkDictInitSize none

def fkDictCreate : FkDict K V := fkDictInit

/-- `fk_dict_clear` frees every element and bucket, and `fk_dict_init` sets every field. -/
def fkDictEmpty (_dct : FkDict K V) : FkDict K V := fkDictInit

def fkDictLen (dct : FkDict K V) : Nat := dct.used

/-- The bucket of a key and the position of its element there. -/
def fkDictSearch (eop : FkEltOp K) (dct : FkDict K V) (key : K) : Nat × Option Nat :=
  let idx := (eop.keyHash key).toNat &&& dct.sizeMask
  (idx, (chain dct.buckets idx).findIdx? fun elt => eop.keyCmp elt.1 key == 0)

/-- The element that a search finds. -/
def fkDictElt (eop : FkEltOp K) (dct : FkDict K V) (key : K) : Option (K × V) :=
  match fkDictSearch eop dct key with
  | (_, none) => none
  | (idx, some position) => (chain dct.buckets idx)[position]?

def fkDictGet (eop : FkEltOp K) (dct : FkDict K V) (key : K) : Option V :=
  match fkDictSearch eop dct key with
  | (_, none) => none
  | (idx, some position) => (chain dct.buckets idx)[position]?.map Prod.snd

/-- Every bucket is emptied from its head into the table of twice the size. -/
def fkDictStretch (eop : FkEltOp K) (dct : FkDict K V) : FkDict K V :=
  if dct.used < dct.limit then dct
  else
    let newSize := dct.size <<< 1
    let place := fun elt : K × V => (eop.keyHash elt.1).toNat &&& (newSize - 1)
    { dct with
      buckets := dct.buckets.foldl (fun bks slot => (slot.getD []).foldl (push place) bks)
        (List.replicate newSize none)
      size := newSize
      sizeMask := newSize - 1
      limit := newSize >>> 1 }

def fkDictAdd (eop : FkEltOp K) (dct : FkDict K V) (key : K) (value : V) : FkDictRt × FkDict K V :=
  let dct := if dct.used = dct.limit then fkDictStretch eop dct else dct
  match fkDictSearch eop dct key with
  | (_, some _) => (.err, dct)
  | (idx, none) =>
      (.ok, { dct with
        buckets := dct.buckets.set idx (some ((key, value) :: chain dct.buckets idx))
        used := dct.used + 1 })

/-- A new value for the element that a search finds; the element keeps its key and place. -/
def fkDictPut (eop : FkEltOp K) (dct : FkDict K V) (key : K) (value : V) : FkDict K V :=
  match fkDictSearch eop dct key with
  | (_, none) => dct
  | (idx, some position) =>
      { dct with
        buckets := dct.buckets.set idx
          (some ((chain dct.buckets idx).modify position fun elt => (elt.1, value))) }

/-- When the key is there, `fk_dict_add` fails and the search that follows finds it. -/
def fkDictReplace (eop : FkEltOp K) (dct : FkDict K V) (key : K) (value : V) : Nat × FkDict K V :=
  match fkDictAdd eop dct key value with
  | (.ok, added) => (0, added)
  | (.err, dct) => (1, fkDictPut eop dct key value)

def fkDictRemove (eop : FkEltOp K) (dct : FkDict K V) (key : K) : FkDictRt × FkDict K V :=
  match fkDictSearch eop dct key with
  | (_, none) => (.err, dct)
  | (idx, some position) =>
      (.ok, { dct with
        buckets := dct.buckets.set idx (some ((chain dct.buckets idx).eraseIdx position))
        used := dct.used - 1 })

/-! ## Iterators -/

/-- A node is given by the rest of its chain, and no node by the empty chain. -/
structure FkDictIter (K V : Type) where
  idx : Int
  cur : List (K × V)
  next : List (K × V)

def fkDictIterBegin : FkDictIter K V := ⟨-1, [], []⟩

/-- The loop of `fk_dict_iter_next`, which passes over empty buckets. -/
def iterLoop (dct : FkDict K V) : Nat → FkDictIter K V → Option (K × V) × FkDictIter K V
  | 0, iter => (none, iter)
  | fuel + 1, iter =>
      if iter.cur.isEmpty then
        let idx := iter.idx + 1
        if idx = dct.size then (none, { iter with idx := idx })
        else
          match chain dct.buckets idx.toNat with
          | [] => iterLoop dct fuel { iter with idx := idx }
          | elt :: rest => (some elt, ⟨idx, elt :: rest, rest⟩)
      else
        match iter.next with
        | [] => iterLoop dct fuel { iter with cur := [] }
        | elt :: rest => (some elt, { iter with cur := elt :: rest, next := rest })

def fkDictIterNext (dct : FkDict K V) (iter : FkDictIter K V) : Option (K × V) × FkDictIter K V :=
  iterLoop dct (dct.size + 2) iter

/-- The elements that a loop over `fk_dict_iter_next` visits, at most `fuel` of them. -/
def visits (dct : FkDict K V) : Nat → FkDictIter K V → List (K × V)
  | 0, _ => []
  | fuel + 1, iter =>
      match fkDictIterNext dct iter with
      | (none, _) => []
      | (some elt, later) => elt :: visits dct fuel later

def fkDictVisits (dct : FkDict K V) : List (K × V) := visits dct (dct.used + 1) fkDictIterBegin

/-- The loop of `fk_dict_random`, with the element of the last round. -/
def randomLoop (dct : FkDict K V) : Nat → FkDictIter K V → Option (K × V) → Option (K × V)
  | 0, _, elt => elt
  | tryTimes + 1, iter, _ =>
      match fkDictIterNext dct iter with
      | (elt, later) => randomLoop dct tryTimes later elt

/-- The element that a result of `rand()` picks.  `none` is a remainder by zero, an
element that was never set or no element. -/
def fkDictRandom (dct : FkDict K V) (number : Nat) : Option (K × V) :=
  if fkDictLen dct = 0 then none
  else randomLoop dct (toInt32 (number % fkDictLen dct + 1 : Nat)).toNat fkDictIterBegin none

/-- The elements in the order of the buckets. -/
def FkDict.elements (dct : FkDict K V) : List (K × V) := contents dct.buckets

end Freekick
