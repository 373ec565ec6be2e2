import Cfd.Base.Text
import Mathlib.Algebra.Group.Nat.Defs

/-!
# Datagram framing

`encode` and `decode` of `src/tunnel/frame.cpp`: what `send_packet` puts before the bytes of a packet,
and what `deliver_inbound` reads there. A frame type is its byte; the two named ones are those of
`enum class FrameType`.

The two are inverse: `decode_encode` for every frame, and `encode_of_decode` for every datagram that is
accepted.
-/

set_option autoImplicit false

namespace Cfd.Tunnel

open Cfd.Base

/-- `FrameType`, by its underlying byte. -/
abbrev FrameType := UInt8

/-- `FrameType::IpPacket`. -/
def FrameType.IpPacket : FrameType := 0x01

/-- `Frame`. -/
structure Frame where
  type : FrameType
  flowId : UInt16
  payload : Text
  deriving DecidableEq

/-- `kFrameVersion`. -/
def kFrameVersion : UInt8 := 0x03

/-- `encode`: version, type, the flow id with its high byte first, the payload. -/
def encode (f : Frame) : Text :=
  [kFrameVersion, f.type, (f.flowId >>> 8).toUInt8, (f.flowId &&& 0xFF).toUInt8] ++ f.payload

/-- `kFrameHeader`. -/
def kFrameHeader : Nat := 4

/-- `DecodeResult`; the payload is the bytes the span points at. -/
structure DecodeResult where
  type : FrameType
  flowId : UInt16
  payload : Text
  deriving DecidableEq

/-- `decode`: its answer, and `out` behind it. -/
def decode (input : Text) (out : DecodeResult) : Bool × DecodeResult :=
  if input.length < kFrameHeader then (false, out)
  else if input.getD 0 0 ≠ kFrameVersion then (false, out)
  else
    let hi := (input.getD 2 0).toUInt16
    let lo := (input.getD 3 0).toUInt16
    (true,
      { type := input.getD 1 0
        -- the operands are promoted to `int`, so the shift loses nothing
        flowId := UInt16.ofNat (hi.toNat <<< 8 ||| lo.toNat)
        payload := input.drop kFrameHeader })

/-- The flow id, put together from its bytes. -/
theorem flowId_of_bytes (a b : UInt8) :
    (UInt16.ofNat (a.toUInt16.toNat <<< 8 ||| b.toUInt16.toNat)).toNat = a.toNat * 256 + b.toNat := by
  have ha := a.toNat_lt
  have hb : b.toNat < 2 ^ 8 := b.toNat_lt
  rw [UInt8.toNat_toUInt16, UInt8.toNat_toUInt16, ← Nat.shiftLeft_add_eq_or_of_lt hb,
    Nat.shiftLeft_eq, UInt16.toNat_ofNat']
  omega

/-- The bytes of the flow id. -/
theorem bytes_of_flowId (n : UInt16) :
    (n >>> 8).toUInt8.toNat = n.toNat / 256 ∧ (n &&& 0xFF).toUInt8.toNat = n.toNat % 256 := by
  have hn := n.toNat_lt
  have hmask : n.toNat &&& 255 = n.toNat % 256 := Nat.and_two_pow_sub_one_eq_mod n.toNat 8
  constructor
  · rw [UInt16.toNat_toUInt8, UInt16.toNat_shiftRight]
    change n.toNat >>> 8 % 2 ^ 8 = _
    rw [Nat.shiftRight_eq_div_pow]
    omega
  · rw [UInt16.toNat_toUInt8, UInt16.toNat_and]
    change (n.toNat &&& 255) % 2 ^ 8 = _
    omega

/-- What is too short is refused, and leaves `out` as it was. -/
theorem decode_short {w : Text} (h : w.length < kFrameHeader) (out : DecodeResult) :
    decode w out = (false, out) := if_pos h

/-- With a header, the version decides; what is refused leaves `out` as it was. -/
theorem decode_header (v t a b : UInt8) (p : Text) (out : DecodeResult) :
    decode (v :: t :: a :: b :: p) out =
      if v = kFrameVersion then
        (true, ⟨t, UInt16.ofNat (a.toUInt16.toNat <<< 8 ||| b.toUInt16.toNat), p⟩)
      else (false, out) := by
  have hlen : ¬ (v :: t :: a :: b :: p).length < kFrameHeader := by
    simp only [List.length_cons, kFrameHeader]
    omega
  rw [decode, if_neg hlen, List.getD_cons_zero]
  by_cases hv : v = kFrameVersion
  · rw [if_pos hv, if_neg (not_not_intro hv)]
    rfl
  · rw [if_neg hv, if_pos hv]

/-- A datagram is too short, or has a header. -/
theorem short_or_header (w : Text) :
    w.length < kFrameHeader ∨ ∃ v t a b p, w = v :: t :: a :: b :: p := by
  match w with
  | v :: t :: a :: b :: p => exact Or.inr ⟨v, t, a, b, p, rfl⟩
  | [] | [_] | [_, _] | [_, _, _] =>
    left
    simp [kFrameHeader]

/-- **Decoding an encoded frame returns its fields.** -/
theorem decode_encode (f : Frame) (out : DecodeResult) :
    decode (encode f) out = (true, ⟨f.type, f.flowId, f.payload⟩) := by
  obtain ⟨hhi, hlo⟩ := bytes_of_flowId f.flowId
  have hflow : UInt16.ofNat ((f.flowId >>> 8).toUInt8.toUInt16.toNat <<< 8 |||
      (f.flowId &&& 0xFF).toUInt8.toUInt16.toNat) = f.flowId := by
    rw [← UInt16.toNat_inj, flowId_of_bytes, hhi, hlo]
    omega
  simp only [encode, List.cons_append, List.nil_append]
  rw [decode_header, if_pos rfl, hflow]

/-- A datagram is accepted when it has a header of the version. -/
theorem decode_fst (w : Text) (out : DecodeResult) :
    (decode w out).1 = true ↔ kFrameHeader ≤ w.length ∧ w[0]? = some kFrameVersion := by
  rcases short_or_header w with hshort | ⟨v, t, a, b, p, rfl⟩
  · rw [decode_short hshort]
    simp [Nat.not_le_of_lt hshort]
  · rw [decode_header]
    by_cases hv : v = kFrameVersion
    · simp [hv, kFrameHeader]
    · simp [hv]

/-- What is refused leaves `out` as it was. -/
theorem decode_untouched {w : Text} {out : DecodeResult} (h : (decode w out).1 = false) :
    (decode w out).2 = out := by
  rcases short_or_header w with hshort | ⟨v, t, a, b, p, rfl⟩
  · rw [decode_short hshort]
  · rw [decode_header] at h ⊢
    split
    next hv =>
      rw [if_pos hv] at h
      cases h
    next => rfl

/-- **What is decoded encodes to the datagram it was decoded from.** -/
theorem encode_of_decode {w : Text} {out : DecodeResult} (h : (decode w out).1 = true) :
    encode ⟨(decode w out).2.type, (decode w out).2.flowId, (decode w out).2.payload⟩ = w := by
  rcases short_or_header w with hshort | ⟨v, t, a, b, p, rfl⟩
  · rw [decode_short hshort] at h
    cases h
  · rw [decode_header] at h ⊢
    split at h
    next hv =>
      subst hv
      have ha := a.toNat_lt
      have hb := b.toNat_lt
      obtain ⟨hhi, hlo⟩ := bytes_of_flowId
        (UInt16.ofNat (a.toUInt16.toNat <<< 8 ||| b.toUInt16.toNat))
      rw [flowId_of_bytes] at hhi hlo
      have h2 : (UInt16.ofNat (a.toUInt16.toNat <<< 8 ||| b.toUInt16.toNat) >>> 8).toUInt8 = a := by
        rw [← UInt8.toNat_inj, hhi]
        omega
      have h3 : (UInt16.ofNat (a.toUInt16.toNat <<< 8 ||| b.toUInt16.toNat) &&& 0xFF).toUInt8 =
          b := by
        rw [← UInt8.toNat_inj, hlo]
        omega
      rw [if_pos rfl, encode, h2, h3]
      rfl
    next => cases h

end Cfd.Tunnel
