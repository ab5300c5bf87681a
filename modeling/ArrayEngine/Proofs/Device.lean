/-
Devices and the bytes that pass to them and back.

A device is given the whole arena as bytes and fills a room of the same size. `LawfulDevice` says the latter of a device
in general; the devices of the library are lawful, and so an execution never changes the size of an arena.
-/
import ArrayEngine.Proofs.Memory
import ArrayEngine.Device.Recorder
import ArrayEngine.Executor.Gpu

namespace ArrayEngine

/-! ## Bytes -/

namespace Bytes

theorem length_ofWords (ws : List UInt32) : (ofWords ws).length = Size.wordBytes * ws.length := by
  induction ws with
  | nil => rfl
  | cons w ws ih =>
    have h : ofWords (w :: ws) = ofWord w ++ ofWords ws := rfl
    rw [h, List.length_append, ih, List.length_cons, Nat.mul_succ, Nat.add_comm]
    rfl

theorem length_toWords (bytes : List UInt8) : (toWords bytes).length = bytes.length / Size.wordBytes := by
  induction bytes using toWords.induct with
  | case1 a b c d rest ih =>
    rw [toWords, List.length_cons, ih]
    simp only [List.length_cons, Size.wordBytes]
    omega
  | case2 bytes h =>
    have hlt : bytes.length < 4 := by
      rcases bytes with _ | ⟨a, _ | ⟨b, _ | ⟨c, _ | ⟨d, rest⟩⟩⟩⟩ <;> simp only [List.length_cons, List.length_nil] <;>
        first
        | omega
        | exact absurd rfl (h a b c d rest)
    rw [toWords]
    · exact (Nat.div_eq_of_lt hlt).symm
    · exact h

end Bytes

namespace Arena

theorem length_bytes (a : Arena) : a.bytes.length = a.byteSize := Bytes.length_ofWords a.words.toList

theorem size_ofBytes {a : Arena} {bytes : List UInt8} (h : bytes.length = a.byteSize) :
    (ofBytes bytes).size = a.size := by
  have hw : (ofBytes bytes).size = (Bytes.toWords bytes).length := rfl
  rw [hw, Bytes.length_toWords, h, byteSize]
  exact Nat.mul_div_cancel_left _ (by decide)

end Arena

/-! ## Lawful devices -/

/-- a device that fills the room it is given, so that it answers as many bytes as it was asked for -/
class LawfulDevice (δ : Type) [Device δ] : Prop where
  length_retrieve : ∀ {n : Nat} {d d' : δ} {bytes : List UInt8}, Device.retrieve n d = .ok bytes d' → bytes.length = n

instance : LawfulDevice HostDevice where
  length_retrieve {n d d' bytes} h := by
    simp only [Device.retrieve, HostDevice.retrieve] at h
    cases hm : d.memory with
    | none => simp [hm, throw, throwThe, MonadExceptOf.throw] at h
    | some m =>
      simp only [hm] at h
      by_cases hn : Size.wordBytes * m.size = n
      · simp only [hn, if_true, pure, Except.pure, EStateM.Result.ok.injEq] at h
        rw [← h.1, Bytes.length_ofWords, List.length_map, Array.length_toList, hn]
      · simp [hn, throw, throwThe, MonadExceptOf.throw] at h

instance : LawfulDevice Recorder where
  length_retrieve {n r r' bytes} h := by
    simp only [Device.retrieve, Recorder.record] at h
    split at h
    · simp at h
    · split at h
      · next hd =>
        simp only [EStateM.Result.ok.injEq] at h
        obtain ⟨rfl, -⟩ := h
        exact LawfulDevice.length_retrieve (δ := HostDevice) hd
      · simp at h

namespace Gpu

theorem Computation.length_runOn {δ : Type} [Device δ] [LawfulDevice δ] {c : Computation} {bytes out : List UInt8}
    {n : Nat} {d : δ} (h : (c.runOn bytes n d).result = .ok out) : out.length = bytes.length := by
  unfold runOn at h
  split at h
  · simp at h
  · split at h
    · simp at h
    · split at h
      · simp at h
      · next hr =>
        simp only [Except.ok.injEq] at h
        exact h ▸ LawfulDevice.length_retrieve hr

end Gpu

end ArrayEngine
