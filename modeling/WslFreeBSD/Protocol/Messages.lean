import WslFreeBSD.Lib.Bytes
import WslFreeBSD.Lib.Framing

/-!
# `MESSAGE_HEADER` and message types

Every message of the host protocol starts with a `MESSAGE_HEADER` of three little-endian
32-bit words: `MessageType`, `MessageSize` (of the whole message, header included) and
`SequenceNumber`. `messageFormat` is the frame format this gives to a channel.

The message type constants are those of the `LX_MESSAGE_TYPE` enumeration.
-/

namespace WslFreeBSD.Protocol

open Lib

/-- `sizeof(struct MESSAGE_HEADER)`. -/
def headerSize : Nat := 12

def messageType (m : Bytes) : Nat := leAt 0 4 m

def messageSize (m : Bytes) : Nat := leAt 4 4 m

def sequenceNumber (m : Bytes) : Nat := leAt 8 4 m

def header (type size seq : Nat) : Bytes := leBytes 4 type ++ leBytes 4 size ++ leBytes 4 seq

def messageFormat : FrameFormat UInt8 where
  headerLen := headerSize
  sizeOf := messageSize
  header_pos := by decide
  sizeOf_append l l' h := leAt_append_of_le (by simp only [headerSize] at h; omega) l'

@[simp] theorem length_header (type size seq : Nat) : (header type size seq).length = 12 := by
  simp [header]

theorem sequenceNumber_lt (m : Bytes) : sequenceNumber m < 2 ^ 32 := leAt_lt 8 4 m

theorem messageType_header_append {type : Nat} (h : type < 2 ^ 32) (size seq : Nat) (l : Bytes) :
    messageType (header type size seq ++ l) = type := by
  unfold messageType header
  rw [List.append_assoc, List.append_assoc]
  exact leAt_append_leBytes (l := []) rfl (by omega) _

theorem messageSize_header_append {size : Nat} (h : size < 2 ^ 32) (type seq : Nat) (l : Bytes) :
    messageSize (header type size seq ++ l) = size := by
  unfold messageSize header
  rw [List.append_assoc, List.append_assoc]
  exact leAt_append_leBytes (by simp) (by omega) _

theorem sequenceNumber_header_append {seq : Nat} (h : seq < 2 ^ 32) (type size : Nat) (l : Bytes) :
    sequenceNumber (header type size seq ++ l) = seq := by
  unfold sequenceNumber header
  rw [List.append_assoc]
  exact leAt_append_leBytes (by simp) (by omega) _

theorem wellFormed_header_append {type size seq : Nat} {l : Bytes} (h : size < 2 ^ 32)
    (hl : 12 + l.length = size) : messageFormat.WellFormed (header type size seq ++ l) := by
  refine ⟨?_, ?_⟩
  · simp [messageFormat, headerSize]
  · change messageSize (header type size seq ++ l) = _
    rw [messageSize_header_append h, List.length_append, length_header, hl]

/-! ## Message types -/

def LxInitMessageCreateProcess : Nat := 1
def LxInitMessageCreateSessionResponse : Nat := 3
def LxInitMessageNetworkInformation : Nat := 4
def LxInitMessageInitializeResponse : Nat := 6
def LxInitMessageTimezoneInformation : Nat := 7
def LxInitMessageCreateProcessUtilityVm : Nat := 8
def LxInitMessageExitStatus : Nat := 9
def LxInitMessageWindowSizeChanged : Nat := 10
def LxInitMessageCreateProcessResponse : Nat := 11
def LxInitMessageQueryDrvfsElevated : Nat := 12
def LxInitMessageRemountDrvfs : Nat := 13
def LxInitMessageTerminateInstance : Nat := 14
def LxInitMessageStartSocketRelay : Nat := 15
def LxInitMessageQueryEnvironmentVariable : Nat := 16
def LxInitMessageQueryFeatureFlags : Nat := 17
def LxInitMessageKernelVersion : Nat := 18
def LxInitMessageAddVirtioFsDevice : Nat := 19
def LxInitMessageAddVirtioFsDeviceResponse : Nat := 20
def LxInitMessageRemountVirtioFsDevice : Nat := 21
def LxInitMessageStartDistroInit : Nat := 22
def LxInitMessageCreateLoginSession : Nat := 23
def LxInitMessageStopPlan9Server : Nat := 24
def LxInitMessageQueryNetworkingMode : Nat := 25
def LxInitMessageQueryVmId : Nat := 26
def LxInitMessageOobeResult : Nat := 28
def LxMiniInitMessageCreateInstanceResult : Nat := 33
def LxGnsMessageInterfaceConfiguration : Nat := 53
def LxGnsMessageResult : Nat := 54
def LxGnsMessageNotification : Nat := 55
def LxGnsMessagePortMappingRequest : Nat := 56
def LxGnsMessageSetPortListener : Nat := 58
def LxGnsMessagePortListenerRelayStart : Nat := 59
def LxGnsMessagePortListenerRelayStop : Nat := 60
def LxGnsMessageVmNicCreatedNotification : Nat := 61
def LxGnsMessageCreateDeviceRequest : Nat := 62
def LxGnsMessageModifyGuestDeviceSettingRequest : Nat := 63
def LxGnsMessageLoopbackRoutesRequest : Nat := 64
def LxGnsMessageDeviceSettingRequest : Nat := 65
def LxGnsMessageIfStateChangeRequest : Nat := 66
def LxGnsMessageIfStateChangeResponse : Nat := 67
def LxGnsMessageInitialIpConfigurationNotification : Nat := 68
def LxGnsMessageSetupIpv6 : Nat := 69
def LxGnsMessageNoOp : Nat := 71
def LxGnsMessageGlobalNetFilter : Nat := 72
def LxGnsMessageInterfaceNetFilter : Nat := 73
def LxGnsMessageConnectTestRequest : Nat := 74
def LxGnsMessageListenerRelay : Nat := 75
def LxMessageResultBool : Nat := 76
def LxMessageResultInt32 : Nat := 77
def LxMessageResultUint32 : Nat := 78
def LxMessageResultUint8 : Nat := 79

end WslFreeBSD.Protocol
