import Freekick.Base.Pool
import Freekick.Lib.Steps

/-!
# Runs of the memory pool

A run allocates and releases units, and between the calls the memory that is not the
pool's is written at will.  No unit is handed out twice.
-/

namespace Freekick

open Lib.Memory Lib.Nodes Lib.Steps

inductive PoolOp where
  | malloc (answer : Option Nat)
  | free (ptr : Nat)
  | write (addr : Nat) (byte : UInt8)
  deriving DecidableEq

/-- The next state, and the units that are allocated then. -/
def poolStep (state : PoolState × Finset Nat) : PoolOp → Option (PoolState × Finset Nat)
  | .malloc answer =>
      (state.1.fkPoolMalloc answer).map fun (ptr, next) => (next, insert ptr state.2)
  | .free ptr => some (state.1.fkPoolFree ptr, state.2.erase ptr)
  | .write addr byte =>
      some ({ state.1 with mem := Function.update state.1.mem addr byte }, state.2)

def poolStart (unitSize initCnt : UInt16) (mem : Mem) : PoolState × Finset Nat :=
  (⟨fkPoolCreate unitSize initCnt, mem⟩, ∅)

/-- What `malloc` promises: it grants no request that is too large, and the memory lies in the
address space and apart from all other blocks. -/
structure PoolState.Granted (state : PoolState) (base : Nat) : Prop where
  fits : blockRequest state.pool.unitSize state.pool.initCnt < 2 ^ 63
  space : 0 < base ∧ base + blockRequest state.pool.unitSize state.pool.initCnt ≤ 2 ^ 64
  apart : ∀ blk ∈ state.pool.blocks, base + blockRequest state.pool.unitSize state.pool.initCnt ≤
    blk.base ∨ blk.stop ≤ base

/-- An allocated unit is released, and what is written is in an allocated unit or outside of
the blocks. -/
def PoolOp.Admitted (state : PoolState × Finset Nat) : PoolOp → Prop
  | .malloc answer => ∀ base, answer = some base → state.1.Granted base
  | .free ptr => ptr ∈ state.2
  | .write addr _ => (∃ ptr ∈ state.2, ptr ≤ addr ∧ addr < ptr + state.1.pool.unitSize) ∨
      ∀ blk ∈ state.1.pool.blocks, addr < blk.base ∨ blk.stop ≤ addr

/-- The invariant of the pool. -/
structure PoolState.Sound (state : PoolState) (allocated : Finset Nat) : Prop where
  sizes : state.pool.unitSize < 2 ^ 16 ∧ state.pool.initCnt < 2 ^ 16
  alike : ∀ blk ∈ state.pool.blocks, blk.unitSize = state.pool.unitSize ∧
    blk.unitCnt = state.pool.initCnt
  apart : state.pool.blocks.Pairwise FkBlock.Apart
  blocks : ∀ blk ∈ state.pool.blocks, blk.Sound state.mem allocated
  inside : ∀ ptr ∈ allocated, ∃ blk ∈ state.pool.blocks, ∃ i < blk.unitCnt, ptr = blk.unit i

variable {state : PoolState} {allocated after : Finset Nat} {front back others : List FkBlock}
  {blk : FkBlock} {mem : Mem} {i ptr : Nat}

theorem splitBlocks_eq_some {wanted : FkBlock → Bool} {blocks : List FkBlock}
    (found : splitBlocks wanted blocks = some (front, blk, back)) :
    blocks = front ++ blk :: back ∧ wanted blk = true := by
  induction blocks generalizing front with
  | nil => cases found
  | cons first rest ih =>
      rw [splitBlocks] at found
      split at found
      · next here =>
          cases found
          exact ⟨rfl, here⟩
      · obtain ⟨⟨front, other, back⟩, later, same⟩ := Option.map_eq_some_iff.mp found
        cases same
        obtain ⟨rfl, holds⟩ := ih later
        exact ⟨rfl, holds⟩

theorem splitBlocks_eq_none {wanted : FkBlock → Bool} {blocks : List FkBlock}
    (missing : splitBlocks wanted blocks = none) :
    ∀ blk ∈ blocks, wanted blk = false := by
  induction blocks with
  | nil => simp
  | cons first rest ih =>
      rw [splitBlocks] at missing
      split at missing
      · cases missing
      · next here =>
          rw [Option.map_eq_none_iff] at missing
          exact List.forall_mem_cons.mpr ⟨Bool.eq_false_iff.mpr here, ih missing⟩

theorem FkBlock.Apart.symm {blk other : FkBlock} (apart : blk.Apart other) : other.Apart blk :=
  Or.symm apart

instance : Std.Symm FkBlock.Apart := ⟨fun _ _ => FkBlock.Apart.symm⟩

namespace PoolState.Sound

/-- The order of the blocks does not matter. -/
theorem perm {blocks : List FkBlock} (sound : (state.setBlocks blocks).Sound allocated)
    (perm : blocks.Perm others) :
    (state.setBlocks others).Sound allocated where
  sizes := sound.sizes
  alike := fun blk member => sound.alike blk (perm.mem_iff.mpr member)
  apart := (perm.pairwise_iff FkBlock.Apart.symm).mp sound.apart
  blocks := fun blk member => sound.blocks blk (perm.mem_iff.mpr member)
  inside := by
    intro ptr member
    obtain ⟨blk, inBlocks, unit⟩ := sound.inside ptr member
    exact ⟨blk, perm.mem_iff.mp inBlocks, unit⟩

/-- One block changes within one of its units; the other blocks do not see it. -/
theorem update (sound : (state.setBlocks (blk :: others)).Sound allocated) {changed : FkBlock}
    (inner : i < blk.unitCnt) (same : changed.base = blk.base ∧ changed.unitCnt = blk.unitCnt ∧
      changed.unitSize = blk.unitSize) (kept : changed.Sound mem after)
    (memory : ∀ addr, addr < blk.unit i ∨ blk.unit i + blk.unitSize ≤ addr →
      mem addr = state.mem addr)
    (units : ∀ ptr, ptr ≠ blk.unit i → (ptr ∈ after ↔ ptr ∈ allocated)) :
    (({ state with mem := mem } : PoolState).setBlocks (changed :: others)).Sound after := by
  obtain ⟨base, unitCnt, unitSize⟩ := same
  obtain ⟨away, apart⟩ := List.pairwise_cons.mp sound.apart
  obtain ⟨here, there⟩ := List.forall_mem_cons.mp sound.blocks
  obtain ⟨alike, alikes⟩ := List.forall_mem_cons.mp sound.alike
  have unit : ∀ j, changed.unit j = blk.unit j := by
    intro j
    rw [FkBlock.unit, FkBlock.data, base, unitSize]
    rfl
  have stop : changed.stop = blk.stop := by
    rw [FkBlock.stop, FkBlock.data, base, unitSize, unitCnt]
    rfl
  refine ⟨sound.sizes, List.forall_mem_cons.mpr ⟨?_, alikes⟩,
    List.pairwise_cons.mpr ⟨fun other member => ?_, apart⟩,
    List.forall_mem_cons.mpr ⟨kept, fun other member => ?_⟩, fun ptr member => ?_⟩
  · rw [unitSize, unitCnt]
    exact alike
  · rw [FkBlock.Apart, stop, base]
    exact away other member
  · have wide := (there other member).unitSize
    have separate := fun j (second : j < other.unitCnt) => (away other member).units inner second
    refine (there other member).congr (fun j second _ => loadWord_congr fun addr least most =>
      memory addr ?_) fun j second => units _ ?_
    · have gap := separate j second
      omega
    · have gap := separate j second
      have positive := here.unitSize
      omega
  · by_cases isUnit : ptr = blk.unit i
    · exact ⟨changed, List.mem_cons_self .., i, unitCnt ▸ inner, by rw [unit, isUnit]⟩
    · obtain ⟨other, inBlocks, j, second, rfl⟩ := sound.inside ptr ((units ptr isUnit).mp member)
      rcases List.mem_cons.mp inBlocks with rfl | inOthers
      · exact ⟨changed, List.mem_cons_self .., j, unitCnt ▸ second, (unit j).symm⟩
      · exact ⟨other, List.mem_cons_of_mem _ inOthers, j, second, rfl⟩

/-- Writing where no block has a free unit. -/
theorem write (sound : state.Sound allocated)
    (memory : ∀ blk ∈ state.pool.blocks, ∀ i, i < blk.unitCnt → blk.unit i ∉ allocated →
      ∀ addr, blk.unit i ≤ addr → addr < blk.unit i + blk.unitSize → mem addr = state.mem addr) :
    ({ state with mem := mem } : PoolState).Sound allocated where
  sizes := sound.sizes
  alike := sound.alike
  apart := sound.apart
  inside := sound.inside
  blocks := by
    intro blk member
    have wide := (sound.blocks blk member).unitSize
    refine (sound.blocks blk member).congr
      (fun i inner unused => loadWord_congr fun addr least most => ?_) fun _ _ => Iff.rfl
    exact memory blk member i inner unused addr least (by omega)

/-- A block whose units are all free goes. -/
theorem drop (sound : (state.setBlocks (blk :: others)).Sound allocated)
    (empty : blk.isEmpty = true) :
    (state.setBlocks others).Sound allocated where
  sizes := sound.sizes
  alike := fun other member => sound.alike other (List.mem_cons_of_mem _ member)
  apart := (List.pairwise_cons.mp sound.apart).2
  blocks := fun other member => sound.blocks other (List.mem_cons_of_mem _ member)
  inside := by
    intro ptr member
    obtain ⟨other, inBlocks, i, inner, rfl⟩ := sound.inside ptr member
    rcases List.mem_cons.mp inBlocks with rfl | inOthers
    · exact absurd member ((sound.blocks other (List.mem_cons_self ..)).isEmpty_iff.mp
        empty i inner)
    · exact ⟨other, inOthers, i, inner, rfl⟩

/-- A unit of a block that is not full is handed out. -/
theorem alloc (sound : (state.setBlocks (front ++ blk :: back)).Sound allocated)
    (notFull : blk.isFull = false) :
    ∃ i, i < blk.unitCnt ∧ (fkPoolBlockAlloc state.mem blk).1 = blk.unit i ∧
      blk.unit i ∉ allocated ∧ (state.setBlocks (front ++ (fkPoolBlockAlloc state.mem blk).2 ::
        back)).Sound (insert (blk.unit i) allocated) := by
  have first := sound.perm List.perm_middle
  obtain ⟨i, inner, ptr, unused, kept⟩ := (first.blocks blk (List.mem_cons_self ..)).alloc notFull
  have units : ∀ other, other ≠ blk.unit i →
      (other ∈ insert (blk.unit i) allocated ↔ other ∈ allocated) :=
    fun other differs => Finset.mem_insert.trans (or_iff_right differs)
  have shape : (fkPoolBlockAlloc state.mem blk).2.base = blk.base ∧
      (fkPoolBlockAlloc state.mem blk).2.unitCnt = blk.unitCnt ∧
      (fkPoolBlockAlloc state.mem blk).2.unitSize = blk.unitSize := ⟨rfl, rfl, rfl⟩
  exact ⟨i, inner, ptr, unused,
    perm (first.update inner shape kept (fun _ _ => rfl) units) List.perm_middle.symm⟩

/-- An allocated unit is in the block that the search finds. -/
theorem found (sound : state.Sound allocated) (used : ptr ∈ allocated) :
    ∃ front blk back i, splitBlocks (fun blk => !blk.nocontain ptr) state.pool.blocks = some
      (front, blk, back) ∧ state.pool.blocks = front ++ blk :: back ∧ i < blk.unitCnt ∧
      ptr = blk.unit i := by
  obtain ⟨holder, inBlocks, i, inner, rfl⟩ := sound.inside ptr used
  cases search : splitBlocks (fun blk => !blk.nocontain (holder.unit i)) state.pool.blocks with
  | none =>
      have missed := splitBlocks_eq_none search holder inBlocks
      rw [FkBlock.contain inner] at missed
      cases missed
  | some parts =>
      obtain ⟨front, blk, back⟩ := parts
      obtain ⟨split, contains⟩ := splitBlocks_eq_some search
      have member : blk ∈ state.pool.blocks :=
        split ▸ List.mem_append_right _ (List.mem_cons_self ..)
      have same : blk = holder := by
        by_contra differs
        rw [(sound.apart.forall member inBlocks differs).nocontain inner] at contains
        cases contains
      exact ⟨front, blk, back, i, rfl, split, same ▸ inner, same ▸ rfl⟩

/-- The block that a unit goes back to. -/
theorem release (sound : (state.setBlocks (front ++ blk :: back)).Sound allocated)
    (inner : i < blk.unitCnt) (used : blk.unit i ∈ allocated) :
    (({ state with mem := (fkPoolBlockFree state.mem blk (blk.unit i)).1 } : PoolState).setBlocks
      ((fkPoolBlockFree state.mem blk (blk.unit i)).2 :: (front ++ back))).Sound
      (allocated.erase (blk.unit i)) := by
  have first := sound.perm List.perm_middle
  have here := first.blocks blk (List.mem_cons_self ..)
  have wide := here.unitSize
  refine first.update inner ⟨rfl, rfl, rfl⟩ (here.release inner used)
    (fun addr outside => storeWord_outside (by omega)) fun other differs => ?_
  exact Finset.mem_erase.trans (and_iff_right differs)

/-- A new block is put before the other ones. -/
theorem create (sound : state.Sound allocated) {base : Nat} (granted : state.Granted base)
    (created : fkBlockCreate state.mem base state.pool.unitSize state.pool.initCnt = some
      (mem, blk)) :
    (({ state with mem := mem } : PoolState).setBlocks (blk :: state.pool.blocks)).Sound allocated ∧
      blk.isFull = false ∧ blk.isEmpty = true := by
  obtain ⟨size, count⟩ := sound.sizes
  have request := blockRequest_eq size count granted.fits
  have separate := granted.apart
  rw [request] at separate
  have shape := FkBlock.create_eq created
  have stop : blk.stop = base + (fkBlockHeader + state.pool.unitSize * state.pool.initCnt) := by
    rw [shape]
    exact Nat.add_assoc ..
  have apart : ∀ other ∈ state.pool.blocks, blk.Apart other := by
    intro other member
    rw [FkBlock.Apart, stop, shape]
    exact separate other member
  have unused : ∀ i, i < blk.unitCnt → blk.unit i ∉ allocated := by
    intro i inner member
    obtain ⟨other, inBlocks, j, second, same⟩ := sound.inside _ member
    have contains := FkBlock.contain inner
    rw [same, (apart other inBlocks).nocontain second] at contains
    cases contains
  obtain ⟨kept, frame⟩ := FkBlock.create_sound count created unused
  have start : blk.data = blk.base + fkBlockHeader := rfl
  have others : ({ state with mem := mem } : PoolState).Sound allocated := by
    refine sound.write fun other member j second _ addr least most => frame addr ?_
    have inside := FkBlock.unit_inside second
    have away := apart other member
    unfold FkBlock.Apart at away
    omega
  refine ⟨⟨sound.sizes, List.forall_mem_cons.mpr ⟨?_, sound.alike⟩,
    List.pairwise_cons.mpr ⟨apart, sound.apart⟩, List.forall_mem_cons.mpr ⟨kept, others.blocks⟩,
    fun ptr member => ?_⟩, ?_, kept.isEmpty_iff.mpr unused⟩
  · rw [shape]
    exact ⟨rfl, rfl⟩
  · obtain ⟨other, inBlocks, unit⟩ := sound.inside ptr member
    exact ⟨other, List.mem_cons_of_mem _ inBlocks, unit⟩
  · have positive := kept.some
    rw [shape] at positive ⊢
    exact beq_eq_false_iff_ne.mpr (Nat.ne_of_gt positive)

end PoolState.Sound

namespace PoolState

theorem setBlocks_self {blocks : List FkBlock} (same : state.pool.blocks = blocks) :
    state.setBlocks blocks = state := by
  rw [← same]
  rfl

/-- The block that a unit is taken from: one that was there, or a new one. -/
theorem Sound.usable (sound : state.Sound allocated) {answer : Option Nat}
    (granted : ∀ base, answer = some base → state.Granted base)
    {middle : PoolState} (found : state.usableBlock answer = some (middle, front, blk, back)) :
    (middle.setBlocks (front ++ blk :: back)).Sound allocated ∧ blk.isFull = false ∧
      middle.pool.emptyBlks = state.pool.emptyBlks ∧
      ((splitBlocks (fun blk => !blk.isFull) state.pool.blocks = some (front, blk, back)) ∨
        (splitBlocks (fun blk => !blk.isFull) state.pool.blocks = none ∧ front = [] ∧
          back = state.pool.blocks ∧ blk.isEmpty = true)) := by
  unfold usableBlock at found
  split at found
  · next parts search =>
      cases found
      obtain ⟨split, wanted⟩ := splitBlocks_eq_some search
      rw [setBlocks_self split]
      exact ⟨sound, by simpa using wanted, rfl, .inl search⟩
  · next search =>
      obtain ⟨base, given, made⟩ := Option.bind_eq_some_iff.mp found
      obtain ⟨⟨mem, fresh⟩, created, same⟩ := Option.map_eq_some_iff.mp made
      cases same
      obtain ⟨kept, notFull, empty⟩ := sound.create (granted base given) created
      exact ⟨kept, notFull, rfl, .inr ⟨search, rfl, rfl, empty⟩⟩

theorem fkPoolMalloc_sound (sound : state.Sound allocated) {answer : Option Nat}
    (granted : ∀ base, answer = some base → state.Granted base)
    {next : PoolState} (got : state.fkPoolMalloc answer = some (ptr, next)) :
    next.Sound (insert ptr allocated) ∧ ptr ∉ allocated ∧ ∃ blk ∈ next.pool.blocks,
      ∃ i < blk.unitCnt, ptr = blk.unit i := by
  obtain ⟨⟨middle, front, blk, back⟩, found, same⟩ := Option.map_eq_some_iff.mp got
  obtain ⟨kept, notFull, _⟩ := sound.usable granted found
  obtain ⟨i, inner, isUnit, unused, after⟩ := kept.alloc notFull
  obtain ⟨isPtr, isNext⟩ := Prod.mk.inj same
  have unit : ptr = blk.unit i := isPtr.symm.trans isUnit
  have blocks : middle.setBlocks (front ++ (fkPoolBlockAlloc middle.mem blk).2 :: back) = next :=
    isNext
  rw [unit, ← blocks]
  exact ⟨after, unused, (fkPoolBlockAlloc middle.mem blk).2,
    List.mem_append_right _ (List.mem_cons_self ..), i, inner, rfl⟩

/-- A unit is handed out unless the process is out of memory. -/
theorem fkPoolMalloc_succeeds (wide : 2 ≤ state.pool.unitSize) (positive : 1 ≤ state.pool.initCnt)
    (base : Nat) :
    ∃ ptr next, state.fkPoolMalloc (some base) = some (ptr, next) := by
  have usable : (state.usableBlock (some base)).isSome := by
    unfold usableBlock
    split
    · rfl
    · have fits : (⟨base, 0, state.pool.initCnt, state.pool.initCnt, state.pool.unitSize⟩ :
          FkBlock).unit (state.pool.initCnt - 1) + 2 ≤
          (⟨base, 0, state.pool.initCnt, state.pool.initCnt, state.pool.unitSize⟩ :
            FkBlock).stop := by
        have last := FkBlock.unit_lt
          (⟨base, 0, state.pool.initCnt, state.pool.initCnt, state.pool.unitSize⟩ : FkBlock)
          (Nat.sub_lt positive Nat.one_pos)
        exact Nat.le_trans (Nat.add_le_add_left wide _) last
      simp [fkBlockCreate, fits]
  obtain ⟨⟨middle, front, blk, back⟩, found⟩ := Option.isSome_iff_exists.mp usable
  exact ⟨_, _, by rw [fkPoolMalloc, found]; rfl⟩

/-- The three ways of a released unit: its block is empty and goes, it is empty and counted,
or it is still in use. -/
theorem Sound.free_cases (sound : state.Sound allocated) (used : ptr ∈ allocated) :
    ∃ front blk back i, state.pool.blocks = front ++ blk :: back ∧ i < blk.unitCnt ∧
      ptr = blk.unit i ∧ ((fkPoolBlockFree state.mem blk ptr).2.isEmpty = true ∧
        state.pool.emptyBlks = fkPoolMaxEmptyBlocks ∧
          state.fkPoolFree ptr = ({ state with mem := (fkPoolBlockFree state.mem blk ptr).1 } :
            PoolState).setBlocks (front ++ back) ∨
        ∃ count, ((fkPoolBlockFree state.mem blk ptr).2.isEmpty = true ∧
          state.pool.emptyBlks ≠ fkPoolMaxEmptyBlocks ∧
            count = (state.pool.emptyBlks + 1) % 2 ^ 32 ∨
            (fkPoolBlockFree state.mem blk ptr).2.isEmpty = false ∧ count = state.pool.emptyBlks) ∧
          state.fkPoolFree ptr =
          ({ pool := { state.pool with emptyBlks := count },
             mem := (fkPoolBlockFree state.mem blk ptr).1 } :
            PoolState).setBlocks ((fkPoolBlockFree state.mem blk ptr).2 :: (front ++ back))) := by
  obtain ⟨front, blk, back, i, search, split, inner, same⟩ := sound.found used
  refine ⟨front, blk, back, i, split, inner, same, ?_⟩
  rw [fkPoolFree, search]
  dsimp only
  cases empty : (fkPoolBlockFree state.mem blk ptr).2.isEmpty with
  | true =>
      by_cases most : state.pool.emptyBlks = fkPoolMaxEmptyBlocks
      · exact .inl ⟨rfl, most, by rw [if_pos rfl, if_pos most]⟩
      · exact .inr ⟨_, .inl ⟨rfl, most, rfl⟩, by rw [if_pos rfl, if_neg most]⟩
  | false => exact .inr ⟨_, .inr ⟨rfl, rfl⟩, rfl⟩

theorem fkPoolFree_sound (sound : state.Sound allocated) (used : ptr ∈ allocated) :
    (state.fkPoolFree ptr).Sound (allocated.erase ptr) := by
  obtain ⟨front, blk, back, i, split, inner, rfl, either⟩ := sound.free_cases used
  have whole : (state.setBlocks (front ++ blk :: back)).Sound allocated := by
    rwa [setBlocks_self split]
  have released := whole.release inner used
  rcases either with ⟨empty, _, freed⟩ | ⟨count, _, freed⟩
  · rw [freed]
    exact released.drop empty
  · rw [freed]
    exact ⟨released.sizes, released.alike, released.apart, released.blocks, released.inside⟩

/-- A block that has an allocated unit left stays. -/
theorem fkPoolFree_keeps (sound : state.Sound allocated) (used : ptr ∈ allocated)
    (member : blk ∈ state.pool.blocks)
    (inner : i < blk.unitCnt) (left : blk.unit i ∈ allocated.erase ptr) :
    ∃ kept ∈ (state.fkPoolFree ptr).pool.blocks, kept.base = blk.base := by
  obtain ⟨front, holder, back, j, split, second, rfl, either⟩ := sound.free_cases used
  rw [split, List.perm_middle.mem_iff, List.mem_cons] at member
  rcases either with ⟨empty, _, freed⟩ | ⟨count, _, freed⟩
  · rw [freed]
    rcases member with rfl | inOthers
    · have whole : (state.setBlocks (front ++ blk :: back)).Sound allocated := by
        rwa [setBlocks_self split]
      have after := (whole.release second used).blocks _ (List.mem_cons_self ..)
      exact absurd left (after.isEmpty_iff.mp empty i inner)
    · exact ⟨blk, inOthers, rfl⟩
  · rw [freed]
    rcases member with rfl | inOthers
    · exact ⟨(fkPoolBlockFree state.mem blk (blk.unit j)).2, List.mem_cons_self .., rfl⟩
    · exact ⟨blk, List.mem_cons_of_mem _ inOthers, rfl⟩

end PoolState

/-! ## Runs -/

theorem poolStart_sound (unitSize initCnt : UInt16) (mem : Mem) :
    (poolStart unitSize initCnt mem).1.Sound (poolStart unitSize initCnt mem).2 where
  sizes := ⟨(poolUnitSize_bounds unitSize).1, initCnt.toNat_lt⟩
  alike := nofun
  apart := List.Pairwise.nil
  blocks := nofun
  inside := fun ptr member => absurd member (Finset.notMem_empty ptr)

theorem PoolState.Sound.scribble (sound : state.Sound allocated) {addr : Nat} {byte : UInt8}
    (admitted : (PoolOp.write addr byte).Admitted (state, allocated)) :
    ({ state with mem := Function.update state.mem addr byte } : PoolState).Sound allocated := by
  refine sound.write fun blk member i inner unused other least most => Function.update_of_ne ?_ ..
  rintro rfl
  rcases admitted with ⟨ptr, used, low, high⟩ | outside
  · obtain ⟨holder, inBlocks, j, second, rfl⟩ := sound.inside ptr used
    have size : holder.unitSize = state.pool.unitSize := (sound.alike holder inBlocks).1
    have apart : blk.unit i + blk.unitSize ≤ holder.unit j ∨
        holder.unit j + holder.unitSize ≤ blk.unit i := by
      by_cases same : blk = holder
      · subst same
        exact blk.units_apart fun equal => unused (equal ▸ used)
      · exact (sound.apart.forall member inBlocks same).units inner second
    dsimp only at high
    omega
  · have inside := FkBlock.unit_inside inner
    have away := outside blk member
    omega

theorem poolStep_sound (pair : PoolState × Finset Nat) (op : PoolOp) (next : PoolState × Finset Nat)
    (sound : pair.1.Sound pair.2) (admitted : op.Admitted pair)
    (stepped : poolStep pair op = some next) : next.1.Sound next.2 := by
  cases op with
  | malloc answer =>
      obtain ⟨⟨ptr, after⟩, got, same⟩ := Option.map_eq_some_iff.mp stepped
      cases same
      exact (PoolState.fkPoolMalloc_sound sound admitted got).1
  | free ptr =>
      cases stepped
      exact PoolState.fkPoolFree_sound sound admitted
  | write addr byte =>
      cases stepped
      exact sound.scribble admitted

/-- The sizes that `fk_pool_create` stores do not change. -/
theorem poolStep_sizes (pair : PoolState × Finset Nat) (op : PoolOp) (next : PoolState × Finset Nat)
    (stepped : poolStep pair op = some next) :
    next.1.pool.unitSize = pair.1.pool.unitSize ∧ next.1.pool.initCnt = pair.1.pool.initCnt := by
  cases op with
  | malloc answer =>
      obtain ⟨⟨ptr, after⟩, got, same⟩ := Option.map_eq_some_iff.mp stepped
      obtain ⟨⟨middle, front, blk, back⟩, found, same'⟩ := Option.map_eq_some_iff.mp got
      cases same
      cases same'
      unfold PoolState.usableBlock at found
      split at found
      · cases found
        exact ⟨rfl, rfl⟩
      · obtain ⟨base, _, made⟩ := Option.bind_eq_some_iff.mp found
        obtain ⟨⟨mem, fresh⟩, _, same⟩ := Option.map_eq_some_iff.mp made
        cases same
        exact ⟨rfl, rfl⟩
  | free ptr =>
      cases stepped
      unfold PoolState.fkPoolFree
      split
      · exact ⟨rfl, rfl⟩
      · dsimp only
        split
        · split <;> exact ⟨rfl, rfl⟩
        · exact ⟨rfl, rfl⟩
  | write addr byte =>
      cases stepped
      exact ⟨rfl, rfl⟩

/-- The invariant, with the sizes that a pool is created with. -/
def PoolMade (unitSize initCnt : UInt16) (pair : PoolState × Finset Nat) : Prop :=
  pair.1.Sound pair.2 ∧ pair.1.pool.unitSize = poolUnitSize unitSize ∧
    pair.1.pool.initCnt = initCnt.toNat

theorem pool_run_made {unitSize initCnt : UInt16} (mem : Mem) {ops : List PoolOp}
    {final : PoolState × Finset Nat}
    (admitted : Throughout poolStep PoolOp.Admitted (poolStart unitSize initCnt mem) ops)
    (reached : run poolStep (poolStart unitSize initCnt mem) ops = some final) :
    PoolMade unitSize initCnt final := by
  have start : PoolMade unitSize initCnt (poolStart unitSize initCnt mem) :=
    ⟨poolStart_sound unitSize initCnt mem, rfl, rfl⟩
  have each : ∀ op ∈ ops, True := fun _ _ => trivial
  refine run_keeps ?_ start each admitted reached
  rintro pair op next ⟨sound, size, count⟩ _ fits stepped
  obtain ⟨size', count'⟩ := poolStep_sizes pair op next stepped
  exact ⟨poolStep_sound pair op next sound fits stepped, size'.trans size, count'.trans count⟩

/-- What the callers of a pool rely on. -/
structure PoolState.Serves (state : PoolState) (allocated : Finset Nat) : Prop where
  sound : state.Sound allocated
  fresh : ∀ answer, (∀ base, answer = some base → state.Granted base) →
    ∀ ptr next, state.fkPoolMalloc answer = some (ptr, next) →
    ptr ∉ allocated ∧ ∃ blk ∈ next.pool.blocks, ∃ i < blk.unitCnt, ptr = blk.unit i
  succeeds : ∀ base, ∃ ptr next, state.fkPoolMalloc (some base) = some (ptr, next)
  keeps : ∀ ptr ∈ allocated, ∀ blk ∈ state.pool.blocks, ∀ i < blk.unitCnt,
    blk.unit i ∈ allocated.erase ptr → ∃ kept ∈ (state.fkPoolFree ptr).pool.blocks,
    kept.base = blk.base

/-- No unit is handed out twice, in any order of calls. -/
theorem fkPool_run_serves (unitSize initCnt : UInt16)
    (size : 1 ≤ unitSize.toNat ∧ unitSize.toNat ≤ 65534) (count : 1 ≤ initCnt.toNat)
    (mem : Mem) (ops : List PoolOp)
    (admitted : Throughout poolStep PoolOp.Admitted (poolStart unitSize initCnt mem) ops)
    (final : PoolState × Finset Nat)
    (reached : run poolStep (poolStart unitSize initCnt mem) ops = some final) :
    final.1.Serves final.2 := by
  obtain ⟨sound, isSize, isCount⟩ := pool_run_made mem admitted reached
  have wide := (poolUnitSize_bounds unitSize).2 (by omega)
  exact {
    sound := sound
    fresh := fun answer granted ptr next got => (PoolState.fkPoolMalloc_sound sound granted got).2
    succeeds := PoolState.fkPoolMalloc_succeeds (isSize ▸ wide) (isCount ▸ count)
    keeps := fun ptr used blk member i inner left => PoolState.fkPoolFree_keeps sound used member
      inner left }

instance (state : PoolState) (base : Nat) : Decidable (state.Granted base) :=
  decidable_of_iff (blockRequest state.pool.unitSize state.pool.initCnt < 2 ^ 63 ∧
      (0 < base ∧ base + blockRequest state.pool.unitSize state.pool.initCnt ≤ 2 ^ 64) ∧
      ∀ blk ∈ state.pool.blocks, base + blockRequest state.pool.unitSize state.pool.initCnt ≤
      blk.base ∨ blk.stop ≤ base)
    ⟨fun ⟨fits, space, apart⟩ => ⟨fits, space, apart⟩, fun ⟨fits, space, apart⟩ =>
      ⟨fits, space, apart⟩⟩

instance (state : PoolState × Finset Nat) : DecidablePred (PoolOp.Admitted state)
  | .malloc none => isTrue nofun
  | .malloc (some base) =>
      decidable_of_iff (state.1.Granted base) ⟨fun granted _ same => Option.some.inj same ▸ granted,
        fun all => all base rfl⟩
  | .free ptr => inferInstanceAs (Decidable (ptr ∈ state.2))
  | .write addr _ =>
      inferInstanceAs (Decidable
        ((∃ ptr ∈ state.2, ptr ≤ addr ∧ addr < ptr + state.1.pool.unitSize) ∨
      ∀ blk ∈ state.1.pool.blocks, addr < blk.base ∨ blk.stop ≤ addr))

/-- Two blocks of two units each; a unit is written to before it is released and handed out
again. -/
theorem fkPool_run_serves_reused :
    let mem : Mem := fun _ => 7
    let ops : List PoolOp := [.malloc (some 1000), .malloc none, .malloc (some 2000), .write 1017 9,
      .free 1016, .free 1020, .malloc none]
    Throughout poolStep PoolOp.Admitted (poolStart 3 2 mem) ops ∧
      ∃ final, run poolStep (poolStart 3 2 mem) ops = some final ∧ final.1.Serves final.2 := by
  intro mem ops
  have admitted : Throughout poolStep PoolOp.Admitted (poolStart 3 2 mem) ops := by decide
  obtain ⟨final, reached⟩ :=
    Option.isSome_iff_exists.mp (show (run poolStep (poolStart 3 2 mem) ops).isSome by decide)
  exact ⟨admitted, final, reached, fkPool_run_serves 3 2 (by decide) (by decide) mem ops admitted
    final reached⟩

/-! ## Empty blocks -/

def PoolState.emptyCount (state : PoolState) : Nat := state.pool.blocks.countP FkBlock.isEmpty

/-- `empty_blks` is right, and a block is released only when enough empty ones are kept. -/
structure PoolState.Counted (pair : PoolState × Finset Nat) : Prop where
  count : pair.1.pool.emptyBlks = pair.1.emptyCount
  most : pair.1.emptyCount ≤ fkPoolMaxEmptyBlocks
  kept : ∀ ptr ∈ pair.2, ∀ blk ∈ pair.1.pool.blocks,
    (∀ left ∈ (pair.1.fkPoolFree ptr).pool.blocks, left.base ≠ blk.base) →
    (pair.1.fkPoolFree ptr).emptyCount = fkPoolMaxEmptyBlocks

/-- No unit is taken from a block whose units are all free. -/
def PoolOp.Spares (pair : PoolState × Finset Nat) : PoolOp → Prop
  | .malloc _ =>
      ∀ front blk back, splitBlocks (fun blk => !blk.isFull) pair.1.pool.blocks = some
        (front, blk, back) → blk.isEmpty = false
  | _ => True

theorem countP_middle (front back : List FkBlock) (blk : FkBlock) :
    (front ++ blk :: back).countP FkBlock.isEmpty = (front ++ back).countP FkBlock.isEmpty +
      if blk.isEmpty then 1 else 0 := by
  rw [List.perm_middle.countP_eq, List.countP_cons]

namespace PoolState

/-- A block with an allocated unit is not empty. -/
theorem Sound.used_not_empty (sound : state.Sound allocated) (member : blk ∈ state.pool.blocks)
    (inner : i < blk.unitCnt) (used : blk.unit i ∈ allocated) : blk.isEmpty = false := by
  rw [Bool.eq_false_iff]
  exact fun empty => (sound.blocks blk member).isEmpty_iff.mp empty i inner used

/-- The number is enough: the rest follows from it. -/
theorem Sound.counted (sound : state.Sound allocated)
    (count : state.pool.emptyBlks = state.emptyCount)
    (most : state.emptyCount ≤ fkPoolMaxEmptyBlocks) : Counted (state, allocated) := by
  refine ⟨count, most, fun ptr used blk member gone => ?_⟩
  obtain ⟨front, holder, back, i, split, inner, rfl, either⟩ := sound.free_cases used
  have notEmpty := sound.used_not_empty
    (split ▸ List.mem_append_right _ (List.mem_cons_self ..)) inner used
  rcases either with ⟨_, full, freed⟩ | ⟨_, _, freed⟩
  · rw [freed, emptyCount]
    rw [emptyCount, split, countP_middle, notEmpty] at count
    exact count.symm.trans full
  · rw [freed] at gone
    rw [split, List.perm_middle.mem_iff, List.mem_cons] at member
    rcases member with rfl | inOthers
    · exact absurd rfl (gone (fkPoolBlockFree state.mem blk (blk.unit i)).2 (List.mem_cons_self ..))
    · exact absurd rfl (gone blk (List.mem_cons_of_mem _ inOthers))

theorem Sound.free_counted (sound : state.Sound allocated) (counted : Counted (state, allocated))
    (used : ptr ∈ allocated) :
    Counted (state.fkPoolFree ptr, allocated.erase ptr) := by
  have after := fkPoolFree_sound sound used
  have count := counted.count
  have most := counted.most
  have limit : fkPoolMaxEmptyBlocks = 1 := rfl
  obtain ⟨front, blk, back, i, split, inner, rfl, either⟩ := sound.free_cases used
  have notEmpty := sound.used_not_empty
    (split ▸ List.mem_append_right _ (List.mem_cons_self ..)) inner used
  have before : state.emptyCount = (front ++ back).countP FkBlock.isEmpty := by
    rw [emptyCount, split, countP_middle, notEmpty]
    rfl
  dsimp only at count most
  rcases either with ⟨_, _, freed⟩ | ⟨number, ⟨empty, few, rfl⟩ | ⟨used', rfl⟩, freed⟩
  · refine after.counted ?_ ?_ <;> rw [freed]
    · exact count.trans before
    · rw [before] at most
      exact most
  · have now : (state.fkPoolFree (blk.unit i)).emptyCount = (front ++ back).countP
        FkBlock.isEmpty + 1 := by
      rw [freed, emptyCount]
      exact List.countP_cons_of_pos empty
    refine after.counted ?_ ?_
    · rw [now, freed]
      change (state.pool.emptyBlks + 1) % 2 ^ 32 = _
      omega
    · omega
  · have now : (state.fkPoolFree (blk.unit i)).emptyCount = (front ++ back).countP
        FkBlock.isEmpty := by
      rw [freed, emptyCount]
      exact List.countP_cons_of_neg (by rw [used']; exact Bool.false_ne_true)
    refine after.counted ?_ ?_
    · rw [now, freed]
      exact count.trans before
    · omega

/-- A new unit changes one block, and only a block that was there can have been empty. -/
theorem Sound.malloc_cases (sound : state.Sound allocated) {answer : Option Nat}
    (granted : ∀ base, answer = some base → state.Granted base)
    {next : PoolState} (got : state.fkPoolMalloc answer = some (ptr, next)) :
    ∃ front blk back changed, next.pool.blocks = front ++ changed :: back ∧
      changed.isEmpty = false ∧ next.pool.emptyBlks = state.pool.emptyBlks ∧
      (splitBlocks (fun blk => !blk.isFull) state.pool.blocks = some (front, blk, back) ∨
        splitBlocks (fun blk => !blk.isFull) state.pool.blocks = none ∧
        front ++ back = state.pool.blocks) := by
  obtain ⟨⟨middle, front, blk, back⟩, found, same⟩ := Option.map_eq_some_iff.mp got
  obtain ⟨kept, notFull, number, origin⟩ := sound.usable granted found
  obtain ⟨i, inner, isUnit, unused, after⟩ := kept.alloc notFull
  obtain ⟨isPtr, isNext⟩ := Prod.mk.inj same
  have blocks : middle.setBlocks (front ++ (fkPoolBlockAlloc middle.mem blk).2 :: back) = next :=
    isNext
  have member : (fkPoolBlockAlloc middle.mem blk).2 ∈ front ++
      (fkPoolBlockAlloc middle.mem blk).2 :: back :=
    List.mem_append_right _ (List.mem_cons_self ..)
  refine ⟨front, blk, back, (fkPoolBlockAlloc middle.mem blk).2, by rw [← blocks]; rfl, ?_,
    by rw [← blocks]; exact number, ?_⟩
  · exact after.used_not_empty member inner (Finset.mem_insert_self ..)
  · exact origin.imp_right fun ⟨missing, isFront, isBack, _⟩ =>
      ⟨missing, by rw [isFront, isBack, List.nil_append]⟩

theorem Sound.malloc_counted_iff (sound : state.Sound allocated)
    (counted : Counted (state, allocated)) {answer : Option Nat}
    (granted : ∀ base, answer = some base → state.Granted base) {next : PoolState}
    (got : state.fkPoolMalloc answer = some (ptr, next)) :
    Counted (next, insert ptr allocated) ↔ (PoolOp.malloc answer).Spares (state, allocated) := by
  have after := (fkPoolMalloc_sound sound granted got).1
  have count := counted.count
  have most := counted.most
  obtain ⟨front, blk, back, changed, blocks, notEmpty, number, origin⟩ :=
    sound.malloc_cases granted got
  have now : next.emptyCount = (front ++ back).countP FkBlock.isEmpty := by
    rw [emptyCount, blocks, countP_middle, notEmpty]
    rfl
  dsimp only at count most
  rcases origin with search | ⟨search, others⟩
  · obtain ⟨split, _⟩ := splitBlocks_eq_some search
    have before : state.emptyCount =
        (front ++ back).countP FkBlock.isEmpty + if blk.isEmpty then 1 else 0 := by
      rw [emptyCount, split, countP_middle]
    constructor
    · intro counted' front' blk' back' search'
      rw [search] at search'
      cases search'
      have count' := counted'.count
      dsimp only at count'
      cases empty : blk.isEmpty with
      | false => rfl
      | true =>
          rw [empty, if_pos rfl] at before
          omega
    · intro spares
      have notEmpty := spares front blk back search
      rw [notEmpty, if_neg Bool.false_ne_true] at before
      exact after.counted (by omega) (by omega)
  · have before : state.emptyCount = (front ++ back).countP FkBlock.isEmpty :=
      by rw [emptyCount, others]
    refine iff_of_true (after.counted (by omega) (by omega)) fun front' blk' back' search' => ?_
    rw [search] at search'
    cases search'

end PoolState

theorem poolStep_counted_iff (pair : PoolState × Finset Nat) (op : PoolOp)
    (next : PoolState × Finset Nat) (sound : pair.1.Sound pair.2)
    (admitted : op.Admitted pair) (counted : PoolState.Counted pair)
    (stepped : poolStep pair op = some next) :
    next.1.Sound next.2 ∧ (PoolState.Counted next ↔ op.Spares pair) := by
  refine ⟨poolStep_sound pair op next sound admitted stepped, ?_⟩
  cases op with
  | malloc answer =>
      obtain ⟨⟨ptr, after⟩, got, same⟩ := Option.map_eq_some_iff.mp stepped
      cases same
      exact sound.malloc_counted_iff counted admitted got
  | free ptr =>
      cases stepped
      exact iff_of_true (sound.free_counted counted admitted) trivial
  | write addr byte =>
      cases stepped
      have kept := sound.scribble admitted
      exact iff_of_true (kept.counted counted.count counted.most) trivial

/-- The number of empty blocks is right all along a run exactly when no unit is ever taken from
an empty block. -/
theorem fkPool_counted_iff (unitSize initCnt : UInt16) (mem : Mem) (ops : List PoolOp)
    (admitted : Throughout poolStep PoolOp.Admitted (poolStart unitSize initCnt mem) ops)
    (final : PoolState × Finset Nat)
    (reached : run poolStep (poolStart unitSize initCnt mem) ops = some final) :
    (∀ count middle, run poolStep (poolStart unitSize initCnt mem) (ops.take count) = some middle →
      PoolState.Counted middle) ↔
      Throughout poolStep PoolOp.Spares (poolStart unitSize initCnt mem) ops := by
  have sound := poolStart_sound unitSize initCnt mem
  exact kept_iff_throughout_along poolStep_counted_iff sound (sound.counted rfl (Nat.zero_le _))
    admitted reached

/-- A block of two units is emptied once. -/
theorem fkPool_counted_iff_emptied :
    let mem : Mem := fun _ => 0
    let ops : List PoolOp := [.malloc (some 1000), .malloc none, .free 1016, .free 1018]
    ∃ final, run poolStep (poolStart 2 2 mem) ops = some final ∧
      ((∀ count middle, run poolStep (poolStart 2 2 mem) (ops.take count) = some middle →
        PoolState.Counted middle) ↔ Throughout poolStep PoolOp.Spares (poolStart 2 2 mem) ops) := by
  intro mem ops
  have admitted : Throughout poolStep PoolOp.Admitted (poolStart 2 2 mem) ops := by decide
  obtain ⟨final, reached⟩ :=
    Option.isSome_iff_exists.mp (show (run poolStep (poolStart 2 2 mem) ops).isSome by decide)
  exact ⟨final, reached, fkPool_counted_iff 2 2 mem ops admitted final reached⟩

/-- A unit is handed out again while the empty block it comes from is still counted, so the
block is released as soon as it is empty again, although no other one is kept. -/
theorem fkPool_counts_used_block :
    let mem : Mem := fun _ => 0
    let ops : List PoolOp := [.malloc (some 1000), .free 1016, .malloc none]
    Throughout poolStep PoolOp.Admitted (poolStart 2 2 mem) (ops ++ [.free 1016]) ∧
      (∃ final, run poolStep (poolStart 2 2 mem) ops = some final ∧ final.1.pool.emptyBlks = 1 ∧
        final.1.emptyCount = 0 ∧ ¬ PoolState.Counted final) ∧
      ∃ final, run poolStep (poolStart 2 2 mem) (ops ++ [.free 1016]) = some final ∧
        final.1.pool.blocks = [] := by
  intro mem ops
  have drifted : (run poolStep (poolStart 2 2 mem) ops).any fun final =>
      final.1.pool.emptyBlks = 1 ∧ final.1.emptyCount = 0 := by decide
  have released : (run poolStep (poolStart 2 2 mem) (ops ++ [.free 1016])).any fun final =>
      final.1.pool.blocks = [] := by decide
  obtain ⟨final, reached, here⟩ := (Option.any_eq_true ..).mp drifted
  obtain ⟨last, reached', gone⟩ := (Option.any_eq_true ..).mp released
  obtain ⟨one, zero⟩ := of_decide_eq_true here
  refine ⟨by decide, ⟨final, reached, one, zero, fun counted => ?_⟩, last, reached',
    of_decide_eq_true gone⟩
  have count := counted.count
  omega

end Freekick
