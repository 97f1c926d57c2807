import Mathlib.Logic.Function.Basic
import WslFreeBSD.Protocol.Messages

/-!
# `LX_GNS_PORT_LISTENER_RELAY`

The message that tells the host about a listening port: after the header the address family, the
port and the four words of the address, 32 bytes in all. Both the reference implementation and
the port tracker fill this structure.
-/

namespace WslFreeBSD.Protocol

open Lib

/-- The four words of an address. -/
structure Addr where
  w0 : UInt32 := 0
  w1 : UInt32 := 0
  w2 : UInt32 := 0
  w3 : UInt32 := 0
  deriving DecidableEq, Repr

def Addr.bytes (a : Addr) : Bytes :=
  leBytes 4 a.w0.toNat ++ leBytes 4 a.w1.toNat ++ leBytes 4 a.w2.toNat ++ leBytes 4 a.w3.toNat

theorem Addr.length_bytes (a : Addr) : a.bytes.length = 16 := by simp [Addr.bytes]

theorem leBytes_toNat_inj {x y : UInt32} (h : leBytes 4 x.toNat = leBytes 4 y.toNat) : x = y := by
  have hmod := (leBytes_inj_iff 4 _ _).mp h
  have hx := x.toNat_lt
  have hy := y.toNat_lt
  apply UInt32.toNat_inj.mp
  omega

theorem leBytes_toNat_inj' {x y : UInt16} (h : leBytes 2 x.toNat = leBytes 2 y.toNat) : x = y := by
  have hmod := (leBytes_inj_iff 2 _ _).mp h
  have hx := x.toNat_lt
  have hy := y.toNat_lt
  apply UInt16.toNat_inj.mp
  omega

theorem Addr.bytes_injective : Function.Injective Addr.bytes := by
  intro a b h
  obtain ⟨h012, h3⟩ := List.append_inj' h (by simp)
  obtain ⟨h01, h2⟩ := List.append_inj' h012 (by simp)
  obtain ⟨h0, h1⟩ := List.append_inj' h01 (by simp)
  cases a
  cases b
  simp only [Addr.mk.injEq]
  exact ⟨leBytes_toNat_inj h0, leBytes_toNat_inj h1, leBytes_toNat_inj h2, leBytes_toNat_inj h3⟩

def portListenerRelay (type seq : Nat) (family port : UInt16) (addr : Addr) : Bytes :=
  header type 32 seq ++ (leBytes 2 family.toNat ++ leBytes 2 port.toNat ++ addr.bytes)

theorem wellFormed_portListenerRelay (type seq : Nat) (family port : UInt16) (addr : Addr) :
    messageFormat.WellFormed (portListenerRelay type seq family port addr) :=
  wellFormed_header_append (by decide) (by simp [Addr.length_bytes])

def withoutSequence (m : Bytes) : Bytes := m.take 8 ++ m.drop 12

theorem withoutSequence_header (type size seq : Nat) (l : Bytes) :
    withoutSequence (header type size seq ++ l) = leBytes 4 type ++ leBytes 4 size ++ l := by
  have htake : (header type size seq ++ l).take 8 = leBytes 4 type ++ leBytes 4 size := by
    unfold header
    rw [List.append_assoc, List.take_left' (by simp)]
  have hdrop : (header type size seq ++ l).drop 12 = l := List.drop_left' (length_header _ _ _)
  rw [withoutSequence, htake, hdrop]

/-- Two such messages of the same type agree, up to the sequence number, exactly when family,
port and address do. -/
theorem withoutSequence_relay_eq_iff (type seq seq' : Nat) (family family' port port' : UInt16)
    (addr addr' : Addr) :
    withoutSequence (portListenerRelay type seq family port addr) =
      withoutSequence (portListenerRelay type seq' family' port' addr') ↔
    family = family' ∧ port = port' ∧ addr = addr' := by
  unfold portListenerRelay
  rw [withoutSequence_header, withoutSequence_header]
  constructor
  · intro h
    have hbody := List.append_cancel_left h
    obtain ⟨hfp, ha⟩ := List.append_inj hbody (by simp)
    obtain ⟨hf, hp⟩ := List.append_inj hfp (by simp)
    exact ⟨leBytes_toNat_inj' hf, leBytes_toNat_inj' hp, Addr.bytes_injective ha⟩
  · rintro ⟨rfl, rfl, rfl⟩
    rfl

end WslFreeBSD.Protocol
