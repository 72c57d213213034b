/-
  File:      Rabbits/Block/HostFile.lean
  Subject:   A host with one file, whose calls complete up to the end of the file (lseek, read,
             write as the device uses them).

  * `HostFile`, `hostFile` -- the file and the calls; offsets are the 32-bit `off_t`;
  * `lseek_set`, `lseek_content` -- where a seek goes, and that it changes no byte;
  * `overwrite_*` -- which bytes a write at a position leaves in the file.
-/
import Rabbits.Block.BlockDevice

namespace Rabbits

/-! ## 1. The calls -/

/-- A file and the position of its descriptor. -/
structure HostFile where
  content : List Byte
  pos : Nat

/-- What `write` at `pos` leaves: a gap behind the old end is filled with zeros. -/
def overwrite (content : List Byte) (pos : Nat) (bytes : List Byte) : List Byte :=
  (content.take pos).rightpad pos 0#8 ++ bytes ++ content.drop (pos + bytes.length)

namespace HostFile

/-- Where a seek counts from. -/
def seekFrom (h : HostFile) : Whence → Nat
  | .SEEK_SET => 0
  | .SEEK_CUR => h.pos
  | .SEEK_END => h.content.length

/-- `lseek`; a position below 0 is an error. -/
def lseek (h : HostFile) (off : ULong) (whence : Whence) : ULong × HostFile :=
  let pos : Int := h.seekFrom whence + off.toInt
  if pos < 0 then (BitVec.allOnes 32, h) else (BitVec.ofInt 32 pos, { h with pos := pos.toNat })

/-- `read`, up to the end of the file. -/
def read (h : HostFile) (n : ULong) : Option (List Byte) × HostFile :=
  let bytes := (h.content.drop h.pos).take n.toNat
  (some bytes, { h with pos := h.pos + bytes.length })

/-- `write`; without bytes it leaves the file as it is. -/
def write (h : HostFile) (bytes : List Byte) : HostFile :=
  if bytes = [] then h
  else ⟨overwrite h.content h.pos bytes, h.pos + bytes.length⟩

end HostFile

/-- The host: its one file has every name, and its descriptor is 3. -/
def hostFile : HostFs HostFile where
  lseek h _ off whence := h.lseek off whence
  read h _ n := h.read n
  write h _ bytes := h.write bytes
  openFile h _ := (3, { h with pos := 0 })
  close h _ := h

namespace HostFile

theorem lseek_set (h : HostFile) (off : ULong) (hoff : off.toNat < 2 ^ 31) :
    (h.lseek off .SEEK_SET).2 = { h with pos := off.toNat } := by
  have hint : off.toInt = off.toNat := BitVec.toInt_eq_toNat_of_lt (by omega)
  have hpos : ¬ ((0 : Nat) : Int) + off.toInt < 0 := by omega
  unfold lseek seekFrom
  dsimp only
  rw [if_neg hpos, hint]
  simp

/-- A seek changes no byte. -/
theorem lseek_content (h : HostFile) (off : ULong) (whence : Whence) :
    (h.lseek off whence).2.content = h.content := by
  unfold lseek
  dsimp only
  split <;> rfl

end HostFile

theorem getFileSize_content (h : HostFile) (fd : Int) :
    (getFileSize hostFile h fd).2.content = h.content := by
  simp only [getFileSize, hostFile, HostFile.lseek_content]

/-- What a WRITE leaves in the file. -/
theorem content_writeFile (d : BlockDevice HostFile) (t : Transfer)
    (hpos : (d.regs.lba * d.regs.blockSize).toNat < 2 ^ 31) (ht : 0 < t.transferSize.toNat) :
    (d.writeFile hostFile t).host.content =
      overwrite d.host.content (d.regs.lba * d.regs.blockSize).toNat
        ((List.range t.transferSize.toNat).map t.dataBuff) := by
  have hne : (List.range t.transferSize.toNat).map t.dataBuff ≠ [] := by
    rw [Ne, List.map_eq_nil_iff, List.range_eq_nil]
    omega
  have hseek := HostFile.lseek_set d.host _ hpos
  simp only [BlockDevice.writeFile, getFileSize_content]
  simp only [hostFile, hseek, HostFile.write, if_neg hne]

/-! ## 2. What a write leaves -/

variable (content : List Byte) (pos : Nat) (bytes : List Byte)

theorem length_rightpad_take : ((content.take pos).rightpad pos 0#8).length = pos := by
  simp [List.rightpad, List.length_take]

/-- Before the position: the old bytes, and zeros behind the old end. -/
theorem overwrite_before {i : Nat} (hi : i < pos) :
    (overwrite content pos bytes)[i]? = some (content.getD i 0#8) := by
  have hlen := length_rightpad_take content pos
  rw [overwrite, List.append_assoc, List.getElem?_append_left (by omega), List.rightpad]
  by_cases hc : i < content.length
  · rw [List.getElem?_append_left (by rw [List.length_take]; omega), List.getElem?_take, if_pos hi,
      List.getD_eq_getElem?_getD, List.getElem?_eq_getElem hc, Option.getD_some]
  · rw [List.getElem?_append_right (by rw [List.length_take]; omega),
      List.getElem?_replicate, List.getD_eq_getElem?_getD, List.getElem?_eq_none (by omega),
      Option.getD_none, List.length_take, if_pos (by omega)]

/-- At the position: the bytes written. -/
theorem overwrite_at {i : Nat} (hi : i < bytes.length) :
    (overwrite content pos bytes)[pos + i]? = bytes[i]? := by
  rw [overwrite, List.append_assoc, List.getElem?_append_right (by rw [length_rightpad_take]; omega),
    length_rightpad_take, Nat.add_sub_cancel_left, List.getElem?_append_left hi]

/-- Behind them: the old bytes. -/
theorem overwrite_behind {i : Nat} (hi : pos + bytes.length ≤ i) :
    (overwrite content pos bytes)[i]? = content[i]? := by
  have hlen := length_rightpad_take content pos
  rw [overwrite, List.getElem?_append_right (by rw [List.length_append, hlen]; omega),
    List.length_append, hlen, List.getElem?_drop]
  congr 1
  omega

end Rabbits
