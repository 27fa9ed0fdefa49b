import Snapshot.ByteText
import Snapshot.CuInterposeProtocol
import Snapshot.MessagePackCodec
import Snapshot.Utf8

/-! The messages of the protocol on the wire. Each type is written as its declaration says: structures
as maps from field names, variants under their names in snake case. A message is an envelope with the
version of the protocol, limited in size. -/
namespace CuInterpose

open MessagePack
open ByteText (literal)

namespace Wire

def u8 : Codec ℕ := .unsigned 8 (by decide)

def u32 : Codec ℕ := .unsigned 32 (by decide)

def u64 : Codec ℕ := .unsigned 64 (by decide)

def field {α : Type} (name : String) (c : Codec α) : Fields α := .one (literal name) c

def variant {α : Type} (name : String) (c : Codec α) : Variants α := .one (literal name) c

def allocationReference : Codec AllocationReference :=
  (((field "id" (.identifier 16)).and (field "creator_pid" u32)).codec (by decide)).equiv
    ⟨fun x => ⟨x.1, x.2⟩, fun a => (a.id, a.creatorPid), fun _ => rfl, fun _ => rfl⟩

def memoryLocation : Codec MemoryLocation :=
  (((field "location_type" u32).and (field "id" .int32)).codec (by decide)).equiv
    ⟨fun x => ⟨x.1, x.2⟩, fun a => (a.locationType, a.id), fun _ => rfl, fun _ => rfl⟩

def memoryAccess : Codec MemoryAccess :=
  (((field "location" memoryLocation).and (field "flags" u32)).codec (by decide)).equiv
    ⟨fun x => ⟨x.1, x.2⟩, fun a => (a.location, a.flags), fun _ => rfl, fun _ => rfl⟩

def multicastProperties : Codec MulticastProperties :=
  (((field "devices" u32).and ((field "size" u64).and
    ((field "handle_types" u64).and (field "flags" u64)))).codec (by decide)).equiv
    ⟨fun x => ⟨x.1, x.2.1, x.2.2.1, x.2.2.2⟩, fun a => (a.devices, a.size, a.handleTypes, a.flags),
      fun _ => rfl, fun _ => rfl⟩

def memberRange : Codec MemberRange :=
  (((field "allocation" allocationReference).and (field "offset" u64)).codec (by decide)).equiv
    ⟨fun x => ⟨x.1, x.2⟩, fun a => (a.allocation, a.offset), fun _ => rfl, fun _ => rfl⟩

def trackedMember : Codec (Option MemberRange) := memberRange.optional fun _ => nofun

def bindingSource : Codec BindingSource :=
  ((variant "memory" memberRange).or
    (variant "address" (((field "address" u64).and
      (.oneOptional (literal "tracked_member") trackedMember nofun)).codec (by decide)))
    (by decide)).codec.equiv
    ⟨fun
      | .inl range => .memory range
      | .inr x => .address x.1 x.2,
    fun
      | .memory range => .inl range
      | .address address trackedMember => .inr (address, trackedMember),
    by rintro (_ | _) <;> rfl, by rintro (_ | _) <;> rfl⟩

def bindingVersion : Codec BindingVersion :=
  .names (fun | .v1 => literal "v1" | .v2 => literal "v2") [.v1, .v2] (by decide)

def access : Codec (List MemoryAccess) := memoryAccess.list

def allocationFields :
    Codec (AllocationReference × Bool × Bool × ℕ × ℕ × ℕ × MemoryLocation × ℕ) :=
  ((field "allocation" allocationReference).and ((field "shared" .bool).and
    ((field "peer_access_granted" .bool).and ((field "size" u64).and ((field "allocation_type" u32).and
    ((field "handle_types" u32).and ((field "location" memoryLocation).and
      (field "virtual_allocation_handle_count" u64)))))))).codec (by decide)

def mappingFields : Codec (AllocationReference × ℕ × ℕ × ℕ × List MemoryAccess) :=
  ((field "allocation" allocationReference).and ((field "address" u64).and ((field "size" u64).and
    ((field "offset" u64).and (field "access" access))))).codec (by decide)

def multicastFields : Codec (AllocationReference × MulticastProperties × ℕ) :=
  ((field "allocation" allocationReference).and ((field "properties" multicastProperties).and
    (field "virtual_multicast_handle_count" u64))).codec (by decide)

def multicastDeviceFields : Codec (AllocationReference × ℤ) :=
  ((field "allocation" allocationReference).and (field "device" .int32)).codec (by decide)

def multicastBindingFields :
    Codec (AllocationReference × BindingSource × ℕ × ℕ × ℕ × BindingVersion × ℤ) :=
  ((field "allocation" allocationReference).and ((field "source" bindingSource).and ((field "size" u64).and
    ((field "offset" u64).and ((field "flags" u64).and ((field "version" bindingVersion).and
      (field "device" .int32))))))).codec (by decide)

def multicastMappingFields : Codec (AllocationReference × ℕ × ℕ × ℕ × ℕ × List MemoryAccess) :=
  ((field "allocation" allocationReference).and ((field "address" u64).and ((field "size" u64).and
    ((field "offset" u64).and ((field "flags" u64).and (field "access" access)))))).codec (by decide)

def record : Codec Record :=
  ((variant "allocation" allocationFields).or ((variant "mapping" mappingFields).or
    ((variant "multicast" multicastFields).or ((variant "multicast_device" multicastDeviceFields).or
      ((variant "multicast_binding" multicastBindingFields).or
        (variant "multicast_mapping" multicastMappingFields)
        (by decide)) (by decide)) (by decide)) (by decide)) (by decide)).codec.equiv
    ⟨fun
      | .inl (a, shared, peer, size, type, handleTypes, location, count) =>
        .allocation a shared peer size type handleTypes location count
      | .inr (.inl (a, address, size, offset, access)) => .mapping a address size offset access
      | .inr (.inr (.inl (a, properties, count))) => .multicast a properties count
      | .inr (.inr (.inr (.inl (a, device)))) => .multicastDevice a device
      | .inr (.inr (.inr (.inr (.inl (a, source, size, offset, flags, version, device))))) =>
        .multicastBinding a source size offset flags version device
      | .inr (.inr (.inr (.inr (.inr (a, address, size, offset, flags, access))))) =>
        .multicastMapping a address size offset flags access,
    fun
      | .allocation a shared peer size type handleTypes location count =>
        .inl (a, shared, peer, size, type, handleTypes, location, count)
      | .mapping a address size offset access => .inr (.inl (a, address, size, offset, access))
      | .multicast a properties count => .inr (.inr (.inl (a, properties, count)))
      | .multicastDevice a device => .inr (.inr (.inr (.inl (a, device))))
      | .multicastBinding a source size offset flags version device =>
        .inr (.inr (.inr (.inr (.inl (a, source, size, offset, flags, version, device)))))
      | .multicastMapping a address size offset flags access =>
        .inr (.inr (.inr (.inr (.inr (a, address, size, offset, flags, access))))),
    by rintro (_ | _ | _ | _ | _ | _) <;> rfl, by rintro (_ | _ | _ | _ | _ | _) <;> rfl⟩

def manifest : Codec Manifest := .map u32 record.list

def operation : Codec Operation :=
  .names (fun
      | .prepareMulticast => literal "prepare_multicast"
      | .saveAllocations => literal "save_allocations"
      | .prepareUnicast => literal "prepare_unicast"
      | .loadAllocations => literal "load_allocations"
      | .restoreUnicast => literal "restore_unicast"
      | .restoreMulticastCreators => literal "restore_multicast_creators"
      | .restoreMulticastImporters => literal "restore_multicast_importers"
      | .restoreMulticastDevices => literal "restore_multicast_devices"
      | .restoreMulticastBindings => literal "restore_multicast_bindings")
    [.prepareMulticast, .saveAllocations, .prepareUnicast, .loadAllocations, .restoreUnicast,
      .restoreMulticastCreators, .restoreMulticastImporters, .restoreMulticastDevices, .restoreMulticastBindings]
    (by decide)

def reply : Codec Reply :=
  ((variant "inspection" ((field "records" record.list).codec (by decide))).or
    ((variant "completed" (((field "operation" operation).and (field "bytes" u64)).codec (by decide))).or
      ((variant "unicast_export" (((field "size" u64).and (field "location" memoryLocation)).codec (by decide))).or
        (variant "multicast_export" ((field "properties" multicastProperties).codec (by decide)))
        (by decide)) (by decide)) (by decide)).codec.equiv
    ⟨fun
      | .inl records => .inspection records
      | .inr (.inl x) => .completed x.1 x.2
      | .inr (.inr (.inl x)) => .unicastExport x.1 x.2
      | .inr (.inr (.inr properties)) => .multicastExport properties,
    fun
      | .inspection records => .inl records
      | .completed operation bytes => .inr (.inl (operation, bytes))
      | .unicastExport size location => .inr (.inr (.inl (size, location)))
      | .multicastExport properties => .inr (.inr (.inr properties)),
    by rintro (_ | _ | _ | _) <;> rfl, by rintro (_ | _ | _ | _) <;> rfl⟩

/-- Text is UTF-8. -/
def string : Codec Bytes := .text fun s => Utf8.valid s

def result : Codec (Except Bytes Reply) :=
  ((variant "Ok" reply).or (variant "Err" string) (by decide)).codec.equiv
    ⟨fun
      | .inl reply => .ok reply
      | .inr message => .error message,
    fun
      | .ok reply => .inl reply
      | .error message => .inr message,
    by rintro (_ | _) <;> rfl, by rintro (_ | _) <;> rfl⟩

end Wire

/-- A participant's answer: its reply, or the message of its refusal. -/
structure Response where
  namespacePid : NamespacePid
  result : Except Bytes Reply

def Wire.response : Codec Response :=
  (((field "namespace_pid" u32).and (field "result" result)).codec (by decide)).equiv
    ⟨fun x => ⟨x.1, x.2⟩, fun r => (r.namespacePid, r.result), fun _ => rfl, fun _ => rfl⟩

inductive WireError where
  | decode
  | invalid (reason : String)
  deriving DecidableEq, Repr

namespace Protocol

open Wire

def version : ℕ := 1

/-- Messages contain metadata, never allocation contents. -/
def maxMessageBytes : ℕ := 32 * 1024 * 1024

def envelope {α : Type} (c : Codec α) : Codec (ℕ × α) :=
  ((field "version" u8).and (field "body" c)).codec
    (show [literal "version", literal "body"].Nodup by decide)

/-- The message before its size is checked. -/
def message {α : Type} (c : Codec α) (body : α) : Bytes :=
  MessagePack.encode ((envelope c).serialize (version, body))

def encode {α : Type} (c : Codec α) (body : α) : Except WireError Bytes :=
  if (message c body).length > maxMessageBytes then .error (.invalid "message exceeds size limit")
  else .ok (message c body)

def decode {α : Type} (c : Codec α) (bytes : Bytes) : Except WireError α :=
  if bytes.length > maxMessageBytes then .error (.invalid "message exceeds size limit")
  else
    match MessagePack.decode 32 bytes with
    | none => .error .decode
    | some (v, rest) =>
      match (envelope c).deserialize v with
      | none => .error .decode
      | some (found, body) =>
        if found ≠ version ∨ rest ≠ [] then .error (.invalid "unsupported version or trailing message data")
        else .ok body

variable {α : Type} {c : Codec α} {body : α} {bytes : Bytes}

theorem encode_eq_ok : encode c body = .ok bytes ↔
    (message c body).length ≤ maxMessageBytes ∧ bytes = message c body := by
  unfold encode
  split
  next h =>
    simp only [reduceCtorEq, false_iff, not_and]
    omega
  next h =>
    rw [Except.ok.injEq]
    exact ⟨fun hbytes => ⟨by omega, hbytes.symm⟩, fun hbytes => hbytes.2.symm⟩

/-- A message within the limit is read back. -/
theorem decode_message (hfits : c.Fits body) (hlevels : c.levels + 1 < 32)
    (hsize : (message c body).length ≤ maxMessageBytes) : decode c (message c body) = .ok body := by
  have henvelope : (envelope c).Fits (version, body) := by
    refine ⟨?_, hfits⟩
    show version < 2 ^ 8
    decide
  have hbounded : Bounded 32 ((envelope c).serialize (version, body)) := by
    refine (envelope c).bounded _ henvelope 32 ?_
    show max 0 c.levels + 1 < 32
    omega
  have hshort : (MessagePack.encode ((envelope c).serialize (version, body))).length < 2 ^ 32 :=
    lt_of_le_of_lt hsize (by decide)
  have hread := MessagePack.decode_encode hbounded hshort []
  rw [List.append_nil] at hread
  rw [decode, if_neg (by omega), message, hread]
  simp only [(envelope c).deserialize_serialize _ henvelope]
  simp

theorem fits_of_decode (h : decode c bytes = .ok body) : c.Fits body := by
  unfold decode at h
  split at h
  · cases h
  · split at h
    · cases h
    · split at h
      · cases h
      next hread =>
        split at h
        · cases h
        · cases h
          exact ((envelope c).fits_of_deserialize _ _ hread).2

end Protocol

end CuInterpose
