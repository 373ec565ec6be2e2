import Cfd.Tunnel.Frame

/-!
# Packets over datagrams

What `send_packet` of `src/tunnel/quic_client.cpp` hands to `DatagramSend`, and what `deliver_inbound`
makes of a datagram. The buffer msquic is given says its length in 32 bits; a packet of the router is
at most 1500 bytes, so the length is never cut.

`datagram_transparent` puts the two together with the codec: a packet comes out as it went in, and
nothing comes out that is not a packet.
-/

set_option autoImplicit false

namespace Cfd.Tunnel

open Cfd.Base

/-- `SendCtx`: the framed packet and the `Length` of its `QUIC_BUFFER`. -/
structure SendCtx where
  bytes : Text
  length : UInt32

/-- The context `send_packet` makes for a packet. -/
def SendCtx.ofPacket (data : Text) : SendCtx :=
  let bytes := encode ⟨.IpPacket, 0, data⟩
  ⟨bytes, UInt32.ofNat bytes.length⟩

/-- What `DatagramSend` is given: as many bytes of the buffer as its length says. -/
def SendCtx.handed (ctx : SendCtx) : Text := ctx.bytes.take ctx.length.toNat

/-- `deliver_inbound`: the handler that is called, and the bytes it is called with. -/
def deliverInbound {H : Type} (handler : Option H) (data : Text) : Option (H × Text) :=
  let (ok, dr) := decode data ⟨0, 0, []⟩
  if ¬ ok then none
  else if dr.type ≠ .IpPacket then none
  else handler.map fun h => (h, dr.payload)

/-- The frame of a packet is handed over whole. -/
theorem handed_ofPacket {p : Text} (hp : p.length + kFrameHeader < 2 ^ 32) :
    (SendCtx.ofPacket p).handed = encode ⟨.IpPacket, 0, p⟩ := by
  have hlen : (encode ⟨.IpPacket, 0, p⟩).length = p.length + kFrameHeader := by
    simp [encode, kFrameHeader]
  rw [SendCtx.handed, SendCtx.ofPacket]
  apply List.take_of_length_le
  rw [UInt32.toNat_ofNat', hlen, Nat.mod_eq_of_lt hp]

variable {H : Type}

/-- The handler is called for the datagrams of the version and of type `IpPacket`, with the bytes
behind the header. -/
theorem deliverInbound_eq_some {handler : Option H} {w : Text} {call : H × Text} :
    deliverInbound handler w = some call ↔
      kFrameHeader ≤ w.length ∧ w[0]? = some kFrameVersion ∧ w[1]? = some FrameType.IpPacket ∧
        handler = some call.1 ∧ call.2 = w.drop kFrameHeader := by
  obtain ⟨h, p⟩ := call
  unfold deliverInbound
  rcases short_or_header w with hshort | ⟨v, t, a, b, q, rfl⟩
  · rw [decode_short hshort]
    simp [Nat.not_le_of_lt hshort]
  · rw [decode_header]
    by_cases hv : v = kFrameVersion
    · by_cases ht : t = FrameType.IpPacket
      · cases handler <;> simp [hv, ht, kFrameHeader, eq_comm]
      · simp [hv, ht]
    · simp [hv]

/-- **Datagrams are transparent to packets.** Encoding and decoding are inverse over the whole wire
format, and a refused datagram leaves the result as it was. A packet that is sent reaches the handler of
the peer as it was, and the handler is called for no datagram but those of the version and of type
`IpPacket`, with exactly the bytes behind the header. -/
theorem datagram_transparent :
    (∀ (f : Frame) (out : DecodeResult),
      decode (encode f) out = (true, ⟨f.type, f.flowId, f.payload⟩)) ∧
    (∀ (w : Text) (out : DecodeResult),
      ((decode w out).1 = true ↔ kFrameHeader ≤ w.length ∧ w[0]? = some kFrameVersion) ∧
      ((decode w out).1 = true →
        encode ⟨(decode w out).2.type, (decode w out).2.flowId, (decode w out).2.payload⟩ = w) ∧
      ((decode w out).1 = false → (decode w out).2 = out)) ∧
    (∀ (h : H) (p : Text), p.length + kFrameHeader < 2 ^ 32 →
      deliverInbound (some h) (SendCtx.ofPacket p).handed = some (h, p)) ∧
    ∀ (handler : Option H) (w : Text) (call : H × Text),
      deliverInbound handler w = some call ↔
        kFrameHeader ≤ w.length ∧ w[0]? = some kFrameVersion ∧ w[1]? = some FrameType.IpPacket ∧
          handler = some call.1 ∧ call.2 = w.drop kFrameHeader := by
  refine ⟨decode_encode, fun w out => ⟨decode_fst w out, encode_of_decode, decode_untouched⟩, ?_,
    fun handler w call => deliverInbound_eq_some⟩
  intro h p hp
  rw [handed_ofPacket hp, deliverInbound, decode_encode]
  rfl

/-- The packet of the codec's test, through a datagram. -/
theorem datagram_transparent_packet :
    deliverInbound (some ()) (SendCtx.ofPacket [0x45, 0, 0, 20]).handed =
      some ((), [0x45, 0, 0, 20]) :=
  datagram_transparent.2.2.1 () [0x45, 0, 0, 20] (by decide)

end Cfd.Tunnel
