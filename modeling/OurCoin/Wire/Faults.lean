import OurCoin.Model.Protocol

/-!
# What the decoders raise

A reader of the primitives raises encoding errors only, and a reader of a record also the
errors of its own class. `from_bytes` turns the former into the latter, so what is not the
encoding of a record is refused with one class of errors
(`Transaction.fromBytes_raises` and its siblings).
-/

set_option autoImplicit false

namespace OurCoin

open Raising Reader

/-! ## Primitives -/

section Primitives

variable {allowed : Raised → Prop} (encoding : ∀ message, allowed (encodingError message))

include encoding

theorem readUnsigned_raises (width : Nat) : RaisesOnly allowed (readUnsigned width) := by
  rw [readUnsigned]
  exact .bind (.take (encoding _) width) fun _ => .pure _

theorem readBytes_raises (maxLength : Nat) : RaisesOnly allowed (readBytes maxLength) := by
  rw [readBytes]
  apply RaisesOnly.bind (readUnsigned_raises encoding 4)
  intro length
  exact .bind (.check (encoding _)) fun _ => .take (encoding _) _

theorem readText_raises [Platform] (maxLength : Nat) :
    RaisesOnly allowed (readText maxLength) := by
  rw [readText]
  apply RaisesOnly.bind (readBytes_raises encoding maxLength)
  intro encoded
  split
  · exact .throw (encoding _)
  · exact .bind (.check (encoding _)) fun _ => .pure _

theorem readSequence_raises (maxItems maxItemLength : Nat) :
    RaisesOnly allowed (readSequence maxItems maxItemLength) := by
  rw [readSequence]
  apply RaisesOnly.bind (readUnsigned_raises encoding 4)
  intro count
  exact .bind (.check (encoding _)) fun _ => .mapM (fun _ => readBytes_raises encoding _) _

/-- Reading a value up to the end of the data. -/
theorem readAll_raises {α : Type} {p : Reader Raised α} (only : RaisesOnly allowed p)
    (data : Bytes) : Raising.RaisesOnly allowed
      (readAll (do let value ← p; ensureFinished; return value) data) := by
  apply RaisesOnly.readAll
  apply RaisesOnly.bind only
  intro value
  exact .bind (.finish (encoding _)) fun _ => .pure _

end Primitives

/-! ## Records -/

/-- A fault in the bytes of a record, before the decoder names it. -/
def RecordFault (own : ErrorClass) (e : Raised) : Prop := e.cls = .encodingError ∨ e.cls = own

theorem RecordFault.encoding {own : ErrorClass} (message : String) :
    RecordFault own (encodingError message) := .inl rfl

/-- A decoder that renames the encoding errors raises only errors of its own class. -/
theorem RecordFault.reraised {α : Type} {own : ErrorClass} {message : String} {x : Except Raised α}
    (only : Raising.RaisesOnly (RecordFault own) x) :
    Raising.RaisesOnly (fun e => e.cls = own)
      (rethrow (reraiseAs (· == .encodingError) own message) x) := by
  apply Raising.RaisesOnly.rethrow
  intro e raised
  rw [reraiseAs]
  split
  · rfl
  · rename_i other
    exact (only e raised).resolve_left (by simpa using other)

variable [Platform]

theorem Transaction.reader_raises : RaisesOnly (RecordFault .transactionError) reader := by
  rw [reader]
  refine .bind (readBytes_raises .encoding _) fun _ => .bind (.check (.inr rfl)) fun _ => ?_
  refine .bind (readUnsigned_raises .encoding 2) fun _ => ?_
  refine .bind (readText_raises .encoding _) fun _ => ?_
  refine .bind (readBytes_raises .encoding _) fun _ => ?_
  refine .bind (readText_raises .encoding _) fun _ => ?_
  refine .bind (readText_raises .encoding _) fun _ => ?_
  refine .bind (readUnsigned_raises .encoding 8) fun _ => ?_
  refine .bind (readUnsigned_raises .encoding 8) fun _ => ?_
  refine .bind (readUnsigned_raises .encoding 8) fun _ => ?_
  refine .bind (readUnsigned_raises .encoding 8) fun _ => ?_
  exact .bind (readBytes_raises .encoding _) fun _ => .pure _

theorem Transaction.fromBytes_raises (encoded : Bytes) :
    Raising.RaisesOnly (fun e => e.cls = .transactionError) (Transaction.fromBytes encoded) := by
  rw [fromBytes]
  exact RecordFault.reraised (readAll_raises .encoding Transaction.reader_raises _)

theorem RewardTransaction.reader_raises :
    RaisesOnly (RecordFault .blockEncodingError) RewardTransaction.reader := by
  rw [reader]
  refine .bind (readBytes_raises .encoding _) fun _ => .bind (.check (.inr rfl)) fun _ => ?_
  refine .bind (readUnsigned_raises .encoding 2) fun _ => ?_
  refine .bind (readText_raises .encoding _) fun _ => ?_
  refine .bind (readUnsigned_raises .encoding 8) fun _ => ?_
  refine .bind (readText_raises .encoding _) fun _ => ?_
  exact .bind (readUnsigned_raises .encoding 8) fun _ => .pure _

theorem RewardTransaction.fromBytes_raises (encoded : Bytes) :
    Raising.RaisesOnly (fun e => e.cls = .blockEncodingError)
      (RewardTransaction.fromBytes encoded) := by
  rw [fromBytes]
  exact RecordFault.reraised (readAll_raises .encoding RewardTransaction.reader_raises _)

theorem BlockHeader.reader_raises :
    RaisesOnly (RecordFault .blockEncodingError) BlockHeader.reader := by
  rw [reader]
  refine .bind (readBytes_raises .encoding _) fun _ => .bind (.check (.inr rfl)) fun _ => ?_
  refine .bind (readUnsigned_raises .encoding 2) fun _ => ?_
  refine .bind (readText_raises .encoding _) fun _ => ?_
  refine .bind (readUnsigned_raises .encoding 8) fun _ => ?_
  refine .bind (readBytes_raises .encoding _) fun _ => ?_
  refine .bind (readBytes_raises .encoding _) fun _ => ?_
  refine .bind (readBytes_raises .encoding _) fun _ => ?_
  refine .bind (readUnsigned_raises .encoding 8) fun _ => ?_
  refine .bind (readBytes_raises .encoding _) fun _ => ?_
  refine .bind (readUnsigned_raises .encoding 8) fun _ => ?_
  exact .bind (readText_raises .encoding _) fun _ => .pure _

theorem BlockHeader.fromBytes_raises (encoded : Bytes) :
    Raising.RaisesOnly (fun e => e.cls = .blockEncodingError) (BlockHeader.fromBytes encoded) := by
  rw [fromBytes]
  refine .bind (RecordFault.reraised (readAll_raises .encoding BlockHeader.reader_raises _))
    fun read _ => ?_
  refine .bind ?_ fun _ _ => .pure _
  rw [checkLengths]
  refine .bind (.bind (.raiseIf rfl) fun _ _ => .pure _) fun _ _ => ?_
  refine .bind (.bind (.raiseIf rfl) fun _ _ => .pure _) fun _ _ => ?_
  refine .bind (.bind (.raiseIf rfl) fun _ _ => .pure _) fun _ _ => ?_
  refine .bind (.raiseIf rfl) fun _ _ => ?_
  exact .bind (.bind (.raiseIf rfl) fun _ _ => .pure _) fun _ _ => .pure _

end OurCoin
