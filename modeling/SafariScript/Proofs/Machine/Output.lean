import SafariScript.Machine.Sink

/-!
# What is written

A sink keeps the bytes it accepts, in order; writing only appends to them (`Sink.bytes_write`). What
it accepts of a text depends on the text and on the room that is left, and on nothing else about the
sink: two sinks with the same room accept the same bytes and have the same room again
(`Sink.write_alike`). A sink with a bound has accepted the beginning of what was to be written
(`Sink.bytes_append_extract`). A sink without a bound accepts whole texts, and gives back the text
that was written since it held another (`Sink.textFrom_holding`).
-/

namespace SafariScript

namespace Sink

/-- The bytes written so far, in order. -/
def bytes (sink : Sink) : List UInt8 := sink.written.data.toList

/-- How many more bytes are accepted, if there is a bound. -/
def room? (sink : Sink) : Option Nat := sink.capacity.map (· - sink.written.size)

/-- A sink with more bytes written to it. -/
def append (sink : Sink) (bytes : ByteArray) : Sink :=
  { sink with written := sink.written ++ bytes }

theorem bytes_append (sink : Sink) (bytes : ByteArray) :
    (sink.append bytes).bytes = sink.bytes ++ bytes.data.toList :=
  ByteArray.toList_data_append

/-- What was written takes up room. -/
theorem room?_append (sink : Sink) (bytes : ByteArray) :
    (sink.append bytes).room? = sink.room?.map (· - bytes.size) := by
  unfold room? append
  cases sink.capacity with
  | none => rfl
  | some n => simp [ByteArray.size_append, Nat.sub_sub]

/-- Writing in terms of the room that is left. -/
theorem write_eq (sink : Sink) (bytes : ByteArray) : sink.write bytes =
    if bytes.size ≤ sink.room?.getD bytes.size then (true, sink.append bytes)
    else (false, sink.append (bytes.extract 0 (sink.room?.getD bytes.size))) := by
  have hroom : sink.capacity.getD (sink.written.size + bytes.size) - sink.written.size =
      sink.room?.getD bytes.size := by
    unfold room?
    cases sink.capacity with
    | none => simp
    | some n => rfl
  unfold write
  rw [hroom]
  rfl

/-- Writing appends what is accepted. -/
theorem bytes_write (sink : Sink) (bytes : ByteArray) :
    sink.bytes <+: (sink.write bytes).2.bytes := by
  rw [write_eq]
  split
  · exact ⟨_, (bytes_append ..).symm⟩
  · exact ⟨_, (bytes_append ..).symm⟩

/-- Two sinks with the same room accept the same bytes. -/
theorem write_alike {sink sink' : Sink} (h : sink.room? = sink'.room?) (bytes : ByteArray) :
    (sink.write bytes).1 = (sink'.write bytes).1 ∧
      (sink.write bytes).2.room? = (sink'.write bytes).2.room? ∧
      ∃ out, (sink.write bytes).2.bytes = sink.bytes ++ out ∧
        (sink'.write bytes).2.bytes = sink'.bytes ++ out := by
  rw [write_eq, write_eq, h]
  split
  · exact ⟨rfl, by rw [room?_append, room?_append, h], _, bytes_append .., bytes_append ..⟩
  · exact ⟨rfl, by rw [room?_append, room?_append, h], _, bytes_append .., bytes_append ..⟩

/-! ### With a bound -/

/-- The sink with a bound on the bytes that it accepts in all. -/
def bounded (c : Nat) (sink : Sink) : Sink := { sink with capacity := some c }

/-- A sink that is not full accepts a text whole or up to its bound. -/
theorem write_bounded (c : Nat) (sink : Sink) (bytes : ByteArray) : (sink.bounded c).write bytes =
    if bytes.size ≤ c - sink.bytes.length then (true, (sink.append bytes).bounded c)
    else (false, (sink.append (bytes.extract 0 (c - sink.bytes.length))).bounded c) :=
  write_eq (sink.bounded c) bytes

/-- What a full sink has accepted is the beginning of what was to be written. -/
theorem bytes_append_extract {c : Nat} {sink : Sink} (h : sink.bytes.length ≤ c)
    (bytes : ByteArray) :
    (sink.append (bytes.extract 0 (c - sink.bytes.length))).bytes =
      (sink.append bytes).bytes.take c := by
  rw [bytes_append, bytes_append, List.take_append, List.take_of_length_le h,
    ByteArray.data_extract, Array.toList_extract]
  rfl

/-! ### Without a bound -/

/-- A sink without a bound accepts everything. -/
theorem write_of_capacity {sink : Sink} (h : sink.capacity = none) (bytes : ByteArray) :
    sink.write bytes = (true, sink.append bytes) := by
  rw [write_eq, room?, h]
  exact if_pos (Nat.le_refl _)

/-- A sink without a bound that holds a text. -/
def holding (s : String) : Sink := ⟨s.toUTF8, none⟩

theorem size_written_holding (s : String) : (holding s).written.size = s.utf8ByteSize :=
  String.size_toByteArray

/-- A line is added to the text, with its line feed. -/
theorem writeLine_holding (s text : String) :
    (holding s).writeLine text = (true, holding (s ++ (text ++ "\n"))) := by
  have hbytes : (holding s).append (text ++ "\n").toUTF8 = holding (s ++ (text ++ "\n")) :=
    congrArg (Sink.mk · none) String.toByteArray_append.symm
  rw [writeLine, write_of_capacity rfl, hbytes]

theorem decode_toUTF8 (s : String) : decode s.toUTF8 = s := by
  have hvalid : s.toUTF8.IsValidUTF8 := s.isValidUTF8
  have hs : String.fromUTF8? s.toUTF8 = some s := dif_pos hvalid
  rw [decode, hs]

/-- What was added to a text can be read off the sink. -/
theorem textFrom_holding (s t : String) : (holding (s ++ t)).textFrom s.utf8ByteSize = t := by
  have hbytes : (holding (s ++ t)).written = s.toUTF8 ++ t.toUTF8 := String.toByteArray_append
  have hextract : (s.toUTF8 ++ t.toUTF8).extract s.utf8ByteSize (s.toUTF8 ++ t.toUTF8).size =
      t.toUTF8 :=
    ByteArray.extract_append_eq_right String.size_toByteArray.symm ByteArray.size_append
  rw [textFrom, hbytes, hextract, decode_toUTF8]

end Sink

end SafariScript
