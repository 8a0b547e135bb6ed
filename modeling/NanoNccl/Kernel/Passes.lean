import NanoNccl.Kernel.Rounds

/-!
# Effect of the two passes on memory

What the first and the second pass of a slice operation leave in the FIFO, in the output history
and in the input history, for all primitives at once.
-/

namespace NanoNccl

variable {α : Type*}

/-- History of an output buffer after one more slice was written. -/
def logged (writes : ℕ → List α) (off len : ℕ) (value : ℕ → α) : ℕ → List α :=
  fun j => if off ≤ j ∧ j < off + len then writes j ++ [value (j - off)] else writes j

/-- The slice operation writes output element `j`. -/
def SliceOp.Covers (op : SliceOp) (j : ℕ) : Prop :=
  op.prim.stores = true ∧ op.dst ≤ j ∧ j < op.dst + op.work

/-- Output buffers hold the last value of their history, or what they held at the start. -/
def Store.Consistent (output : ℕ × ℕ → ℕ → α) (store : Store α) : Prop :=
  ∀ buffer j, store.output buffer j = (store.writes buffer j).getLastD (output buffer j)

namespace Store

variable {output : ℕ × ℕ → ℕ → α} {store : Store α}

theorem Consistent.storeOutput (consistent : store.Consistent output) (buffer : ℕ × ℕ)
    (off len : ℕ) (value : ℕ → α) : (store.storeOutput buffer off len value).Consistent output := by
  intro other j
  have before := consistent other j
  by_cases same : other = buffer
  · subst same
    by_cases inside : off ≤ j ∧ j < off + len
    · simp [Store.storeOutput, Memory.overwrite, inside]
    · simpa [Store.storeOutput, Memory.overwrite, inside] using before
  · simpa [Store.storeOutput, same] using before

end Store

namespace KernelRing

variable (net : KernelRing α) (launch : Launch α) (id : BlockId) (block : Block) (op : SliceOp)
  (store : Store α)

/-- Element `i` of the receive slot. -/
def received (i : ℕ) : α := store.fifo (net.pred id) (slotOffset launch block.recvStep + i)

/-- What the first pass writes: a copy of the receive slot, or the finished value. -/
def firstValue (i : ℕ) : α :=
  if twoPass launch op then net.received launch id block store i
  else net.produce launch id.1 op.prim (op.src + i) (net.received launch id block store i)

theorem firstValue_eq : net.firstValue launch id block op store = fun i =>
    if op.prim.reduces && early launch op then
      store.fifo (net.pred id) (slotOffset launch block.recvStep + i)
    else net.produce launch id.1 op.prim (op.src + i)
      (store.fifo (net.pred id) (slotOffset launch block.recvStep + i)) := rfl

/-- The first pass writes the output buffer. -/
def firstStores : Bool := op.prim.stores && !(twoPass launch op && op.prim.sends)

theorem moveSlice_fifo :
    (net.moveSlice launch id block op store).fifo =
      if op.prim.sends then
        Function.update store.fifo id (Memory.overwrite (store.fifo id)
          (slotOffset launch block.sendStep) op.work (net.firstValue launch id block op store))
      else store.fifo := by
  have value := net.firstValue_eq launch id block op store
  cases kind : op.prim <;> cases small : early launch op <;>
    simp only [moveSlice, kind, small, Prim.sends, Prim.reduces] at value ⊢ <;>
    simp [Store.storeFifo, Store.loadInput, Store.storeOutput, value, produce, reduced]
  rfl

theorem moveSlice_writes :
    (net.moveSlice launch id block op store).writes =
      if firstStores launch op then
        Function.update store.writes (id.1, block.launch)
          (logged (store.writes (id.1, block.launch)) op.dst op.work
            (net.firstValue launch id block op store))
      else store.writes := by
  have value := net.firstValue_eq launch id block op store
  cases kind : op.prim <;> cases small : early launch op <;>
    simp only [moveSlice, kind, small, firstStores, Prim.sends, Prim.stores, twoPass,
      Prim.reduces] at value ⊢ <;>
    simp [Store.storeFifo, Store.loadInput, Store.storeOutput, value, produce, reduced] <;> rfl

theorem moveSlice_loads :
    (net.moveSlice launch id block op store).loads =
      if op.prim.loads && !twoPass launch op then
        Function.update store.loads (id.1, block.launch)
          (store.loads (id.1, block.launch) ++ [(op.src, op.work)])
      else store.loads := by
  cases kind : op.prim <;> cases small : early launch op <;>
    simp only [moveSlice, kind, small, Prim.loads, twoPass, Prim.reduces] <;> rfl

theorem moveSlice_consistent {output : ℕ × ℕ → ℕ → α} (consistent : store.Consistent output) :
    (net.moveSlice launch id block op store).Consistent output := by
  unfold moveSlice
  split
  all_goals
    first
    | exact consistent
    | exact consistent.storeOutput _ _ _ _

/-- What the second pass reads: the copy the first pass left in the send slot or the output. -/
def copied (i : ℕ) : α :=
  if op.prim.sends then store.fifo id (slotOffset launch block.sendStep + i)
  else store.output (id.1, block.launch) (op.dst + i)

/-- What the second pass writes. -/
def secondValue (i : ℕ) : α :=
  net.produce launch id.1 op.prim (op.src + i) (copied launch id block op store i)

theorem secondValue_eq : net.secondValue launch id block op store = fun i =>
    net.produce launch id.1 op.prim (op.src + i)
      (if op.prim.sends then store.fifo id (slotOffset launch block.sendStep + i)
      else store.output (id.1, block.launch) (op.dst + i)) := rfl

variable {launch op}

theorem reduceSlice_fifo (passes : twoPass launch op = true) :
    (net.reduceSlice launch id block op store).fifo =
      if op.prim.sends then
        Function.update store.fifo id (Memory.overwrite (store.fifo id)
          (slotOffset launch block.sendStep) op.work (net.secondValue launch id block op store))
      else store.fifo := by
  have value := net.secondValue_eq launch id block op store
  cases kind : op.prim <;> simp [twoPass, kind, Prim.reduces] at passes <;>
    simp only [reduceSlice, kind, Prim.sends] at value ⊢ <;>
    simp [Store.storeFifo, Store.loadInput, Store.storeOutput, value, produce, reduced]
  rfl

theorem reduceSlice_writes (passes : twoPass launch op = true) :
    (net.reduceSlice launch id block op store).writes =
      if op.prim.stores then
        Function.update store.writes (id.1, block.launch)
          (logged (store.writes (id.1, block.launch)) op.dst op.work
            (net.secondValue launch id block op store))
      else store.writes := by
  have value := net.secondValue_eq launch id block op store
  cases kind : op.prim <;> simp [twoPass, kind, Prim.reduces] at passes <;>
    simp only [reduceSlice, kind, Prim.sends, Prim.stores] at value ⊢ <;>
    simp [Store.storeFifo, Store.loadInput, Store.storeOutput, value, produce, reduced] <;> rfl

theorem reduceSlice_loads (passes : twoPass launch op = true) :
    (net.reduceSlice launch id block op store).loads =
      Function.update store.loads (id.1, block.launch)
        (store.loads (id.1, block.launch) ++ [(op.src, op.work)]) := by
  cases kind : op.prim <;> simp [twoPass, kind, Prim.reduces] at passes <;>
    simp only [reduceSlice, kind] <;> rfl

theorem reduceSlice_consistent {output : ℕ × ℕ → ℕ → α} (consistent : store.Consistent output) :
    (net.reduceSlice launch id block op store).Consistent output := by
  unfold reduceSlice
  dsimp only
  split
  all_goals
    first
    | exact consistent
    | exact consistent.storeOutput _ _ _ _

end KernelRing
end NanoNccl
