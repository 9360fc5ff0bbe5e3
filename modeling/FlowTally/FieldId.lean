import FlowTally.Text.Quoted
import FlowTally.Value.Basic

/-!
# The fields of a flow record

A field is known by a 16-bit identifier. The catalog gives each known field a name
and the type of its values, and says whether it can be aggregated; a composite
field can only be carried along. A pair field stands for its source and its
destination member, which have the type of the pair.
-/

namespace FlowTally

/-- The identifier of a field. -/
structure FieldId where
  /-- The number of the field. -/
  code : UInt16
deriving DecidableEq, Repr

/-- Fields are ordered by number. -/
instance : LT FieldId := ⟨fun a b => a.code < b.code⟩

instance : DecidableLT FieldId := fun a b => inferInstanceAs (Decidable (a.code < b.code))

/-- One line of the catalog. -/
structure CatalogEntry where
  /-- The field. -/
  field : FieldId
  /-- Its name in records and configurations. -/
  name : String
  /-- The type of its values. -/
  type : ValueType
  /-- Whether it can be aggregated as asked, not only carried along. -/
  aggregatable : Bool
deriving Repr

namespace FieldId

/-- Start of the flow. -/
def first : FieldId := ⟨0x01⟩

/-- End of the flow. -/
def last : FieldId := ⟨0x02⟩

/-- When the flow was received. -/
def received : FieldId := ⟨0x03⟩

/-- Bytes of the flow. -/
def bytes : FieldId := ⟨0x04⟩

/-- Packets of the flow. -/
def packets : FieldId := ⟨0x05⟩

/-- Bytes on the way out. -/
def outBytes : FieldId := ⟨0x06⟩

/-- Packets on the way out. -/
def outPackets : FieldId := ⟨0x07⟩

/-- Flows behind one record. -/
def flows : FieldId := ⟨0x08⟩

/-- Source port. -/
def srcPort : FieldId := ⟨0x09⟩

/-- Destination port. -/
def dstPort : FieldId := ⟨0x0a⟩

/-- Union of the TCP flags. -/
def tcpFlags : FieldId := ⟨0x0b⟩

/-- Source address. -/
def srcAddr : FieldId := ⟨0x0c⟩

/-- Destination address. -/
def dstAddr : FieldId := ⟨0x0d⟩

/-- Source autonomous system. -/
def srcAs : FieldId := ⟨0x13⟩

/-- Destination autonomous system. -/
def dstAs : FieldId := ⟨0x14⟩

/-- Transport protocol. -/
def protocol : FieldId := ⟨0x18⟩

/-- Source VLAN. -/
def srcVlan : FieldId := ⟨0x20⟩

/-- Destination VLAN. -/
def dstVlan : FieldId := ⟨0x21⟩

/-- Interface on the way in. -/
def inInterface : FieldId := ⟨0x27⟩

/-- Interface on the way out. -/
def outInterface : FieldId := ⟨0x28⟩

/-- Time of an event. -/
def eventTime : FieldId := ⟨0x2e⟩

/-- Name of a user. -/
def userName : FieldId := ⟨0x40⟩

/-- Lost sequence numbers. -/
def sequenceFailures : FieldId := ⟨0x4f⟩

/-- Milliseconds from start to end. -/
def duration : FieldId := ⟨0xa1⟩

/-- Bits per second. -/
def bitRate : FieldId := ⟨0xa2⟩

/-- Packets per second. -/
def packetRate : FieldId := ⟨0xa3⟩

/-- Bytes per packet. -/
def packetSize : FieldId := ⟨0xa4⟩

/-- Either port. -/
def port : FieldId := ⟨0x100⟩

/-- Either address. -/
def addr : FieldId := ⟨0x101⟩

/-- Either autonomous system. -/
def autonomousSystem : FieldId := ⟨0x102⟩

/-- Either interface. -/
def interface : FieldId := ⟨0x103⟩

/-- Either VLAN. -/
def vlan : FieldId := ⟨0x104⟩

end FieldId

namespace CatalogEntry

/-- A field that can be aggregated. -/
def column (code : UInt16) (name : String) (type : ValueType) : CatalogEntry :=
  ⟨⟨code⟩, name, type, true⟩

/-- A composite field that can only be carried along. -/
def carried (code : UInt16) (name : String) (type : ValueType) : CatalogEntry :=
  ⟨⟨code⟩, name, type, false⟩

end CatalogEntry

open CatalogEntry in
/-- All known fields in ascending order of their numbers. -/
def catalog : List CatalogEntry := [
  column 0x01 "first" .timestamp,
  column 0x02 "last" .timestamp,
  column 0x03 "received" .u64,
  column 0x04 "bytes" .u64,
  column 0x05 "pkts" .u64,
  column 0x06 "outbytes" .u64,
  column 0x07 "outpkts" .u64,
  column 0x08 "flows" .u64,
  column 0x09 "srcport" .u16,
  column 0x0a "dstport" .u16,
  column 0x0b "tcpflags" .u8,
  column 0x0c "srcip" .addr,
  column 0x0d "dstip" .addr,
  column 0x0e "nexthop" .addr,
  column 0x0f "srcmask" .u8,
  column 0x10 "dstmask" .u8,
  column 0x11 "tos" .u8,
  column 0x12 "dsttos" .u8,
  column 0x13 "srcas" .u32,
  column 0x14 "dstas" .u32,
  column 0x15 "nextas" .u32,
  column 0x16 "prevas" .u32,
  column 0x17 "bgpnexthop" .addr,
  column 0x18 "proto" .u8,
  column 0x20 "srcvlan" .u16,
  column 0x21 "dstvlan" .u16,
  column 0x22 "insrcmac" .mac,
  column 0x23 "outsrcmac" .mac,
  column 0x24 "indstmac" .mac,
  column 0x25 "outdstmac" .mac,
  carried 0x26 "mpls" .blob,
  column 0x27 "inif" .u32,
  column 0x28 "outif" .u32,
  column 0x29 "dir" .u8,
  column 0x2a "fwd" .u8,
  column 0x2b "router" .addr,
  column 0x2c "systype" .u8,
  column 0x2d "sysid" .u8,
  column 0x2e "eventtime" .u64,
  column 0x2f "connid" .u32,
  column 0x30 "icmpcode" .u8,
  column 0x31 "icmptype" .u8,
  column 0x32 "xevent" .u16,
  column 0x33 "event" .u8,
  column 0x34 "xsrcip" .addr,
  column 0x35 "xdstip" .addr,
  column 0x36 "xsrcport" .u16,
  column 0x37 "xdstport" .u16,
  column 0x38 "iacl" .u32,
  column 0x39 "iace" .u32,
  column 0x3a "ixace" .u32,
  carried 0x3b "ingressacl" .blob,
  column 0x3c "eacl" .u32,
  column 0x3d "eace" .u32,
  column 0x3e "exace" .u32,
  carried 0x3f "egressacl" .blob,
  carried 0x40 "username" .string,
  column 0x41 "ingressvrfid" .u32,
  column 0x42 "eventflag" .u8,
  column 0x43 "egressvrfid" .u32,
  column 0x44 "blockstart" .u16,
  column 0x45 "blockend" .u16,
  column 0x46 "blockstep" .u16,
  column 0x47 "blocksize" .u16,
  column 0x48 "cl" .u64,
  column 0x49 "sl" .u64,
  column 0x4a "al" .u64,
  column 0x4b "inetfamily" .u32,
  column 0x4c "exporterip" .addr,
  column 0x4d "exporterid" .u32,
  column 0x4e "exporterversion" .u32,
  column 0x4f "seqfailures" .u32,
  column 0x50 "samplermode" .u16,
  column 0x51 "samplerinterval" .u32,
  column 0x52 "samplerid" .u32,
  column 0xa1 "duration" .u64,
  column 0xa2 "bps" .f64,
  column 0xa3 "pps" .f64,
  column 0xa4 "bpp" .f64,
  carried 0xb0 "brec1" .blob,
  column 0x100 "port" .u16,
  column 0x101 "ip" .addr,
  column 0x102 "as" .u32,
  column 0x103 "if" .u32,
  column 0x104 "vlan" .u16]

namespace FieldId

/-- The catalog entry of a field. -/
def info? (f : FieldId) : Option CatalogEntry :=
  catalog.find? fun e => decide (e.field = f)

/-- The field of a name. -/
def ofName? (name : String) : Option FieldId :=
  (catalog.find? fun e => decide (e.name = name)).map (·.field)

/-- The type of the values of a field. -/
def type? (f : FieldId) : Option ValueType := f.info?.map (·.type)

/-- The name of a field, or a word that stands for all unknown ones. -/
def name (f : FieldId) : String := (f.info?.map (·.name)).getD "unknown"

/-- The name of a field in messages; an unknown one is shown by its number. -/
def label (f : FieldId) : String :=
  match f.info? with
  | some e => e.name
  | none => "field#0x" ++ String.ofList (Text.hexNumber f.code.toNat)

/-- Each pair field with its source and its destination member. -/
def pairs : List (FieldId × FieldId × FieldId) :=
  [(port, srcPort, dstPort),
   (addr, srcAddr, dstAddr),
   (autonomousSystem, srcAs, dstAs),
   (interface, inInterface, outInterface),
   (vlan, srcVlan, dstVlan)]

/-- The members of a pair field. -/
def members? (f : FieldId) : Option (FieldId × FieldId) :=
  (pairs.find? fun p => decide (p.1 = f)).map (·.2)

/-- Whether a field is a pair. -/
def isPair (f : FieldId) : Bool := f.members?.isSome

/-- The catalog entry of a field is about that field. -/
theorem field_of_info? {f : FieldId} {e : CatalogEntry} (h : f.info? = some e) : e.field = f := by
  unfold info? at h
  simpa using List.find?_some h

/-- No field precedes itself. -/
theorem lt_irrefl (f : FieldId) : ¬f < f := UInt16.lt_irrefl f.code

/-- The order of fields is transitive. -/
theorem lt_trans {a b c : FieldId} (hab : a < b) (hbc : b < c) : a < c :=
  UInt16.lt_trans hab hbc

/-- Of two different fields one precedes the other. -/
theorem lt_of_not_lt {a b : FieldId} (h : ¬a < b) (hne : b ≠ a) : b < a := by
  have hcode : b.code ≠ a.code := fun he => hne (congrArg FieldId.mk he)
  exact UInt16.lt_of_le_of_ne (UInt16.not_lt.mp h) hcode

/-- The members of a pair are no pairs and have the type of the pair. -/
theorem pairs_types : ∀ p ∈ pairs,
    (p.2.1.type? = p.1.type? ∧ p.2.1.isPair = false) ∧
      p.2.2.type? = p.1.type? ∧ p.2.2.isPair = false := by decide

/-- A field with members stands among the pairs. -/
theorem mem_pairs_of_members? {f source destination : FieldId}
    (h : f.members? = some (source, destination)) : (f, source, destination) ∈ pairs := by
  obtain ⟨p, hp, hmembers⟩ := Option.map_eq_some_iff.mp h
  obtain rfl : p.1 = f := by simpa using List.find?_some hp
  rw [← hmembers]
  exact List.mem_of_find?_eq_some hp

end FieldId

end FlowTally
