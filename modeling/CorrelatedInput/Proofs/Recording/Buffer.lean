import CorrelatedInput.Recording.Buffer
/-!
Nothing that is written into a buffer is lost on its way: what was saved stays, and what was
written follows it.
-/
namespace CorrelatedInput.Buffer

variable {b c d : Buffer} {piece more : String}

/-- What `b` has saved, `c` has saved too, and perhaps more behind it. -/
def Precedes (b c : Buffer) : Prop := ∃ more, c.saved = b.saved ++ more

theorem Precedes.refl (b : Buffer) : Precedes b b := ⟨"", by simp⟩

theorem Precedes.trans (h : Precedes b c) (k : Precedes c d) : Precedes b d := by
  obtain ⟨x, hx⟩ := h
  obtain ⟨y, hy⟩ := k
  exact ⟨x ++ y, by rw [hy, hx, String.append_assoc]⟩

theorem flush_precedes (b : Buffer) : Precedes b b.flush := ⟨b.pending, rfl⟩

theorem write_precedes (piece : String) (b : Buffer) : Precedes b (b.write piece) := by
  have flushed (enough : Prop) [Decidable enough] : Precedes b (if enough then b.flush else b) := by
    split
    · exact flush_precedes b
    · exact .refl b
  unfold write
  simp only
  split
  · exact ⟨"", by simp⟩
  · obtain ⟨more, saved⟩ := flushed (capacity < b.pending.utf8ByteSize + piece.utf8ByteSize)
    split
    · exact ⟨more ++ piece, by simp only [saved, String.append_assoc]⟩
    · exact ⟨more, saved⟩

@[simp] theorem write_text (piece : String) (b : Buffer) :
    (b.write piece).text = b.text ++ piece := by
  unfold write
  simp only
  split
  · simp [text, String.append_assoc]
  · rename_i full
    split
    · rename_i large
      split
      · simp [text, flush]
      · -- the piece fills the buffer by itself, so nothing waits in front of it
        have none : b.pending.utf8ByteSize = 0 := by omega
        have none : b.pending = "" := String.utf8ByteSize_eq_zero_iff.mp none
        simp [text, none]
    · split <;> simp [text, flush, String.append_assoc]

theorem sentSince_eq (h : c.saved = b.saved ++ more) : sentSince b c = more.toUTF8 := by
  have size : (b.saved ++ more).utf8ByteSize =
      b.saved.toByteArray.size + more.toByteArray.size := by simp
  simp only [sentSince, h, String.toUTF8_eq_toByteArray, String.toByteArray_append]
  exact ByteArray.extract_append_eq_right rfl size

end CorrelatedInput.Buffer
