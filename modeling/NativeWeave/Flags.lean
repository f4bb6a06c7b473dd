import NativeWeave.Naming

namespace NativeWeave

/-!
# Flags of exposed members and functions

An exposed member or function carries a set of flags, kept as a word with one bit for each flag.
Bits that belong to no flag can be set too and are kept.  The flags of a member are gathered from
its property annotation and from the plain annotations that stand for one flag each.
-/

/-- A kind of flags: its flags in order, the bit of each and its name. -/
class FlagKind (Flag : Type) where
  all : List Flag
  /-- The number of the bit that stands for a flag. -/
  position : Flag → UInt64
  label : Flag → String

/-- A set of flags as a word of bits. -/
structure FlagSet (Flag : Type) where
  bits : UInt64 := 0
deriving DecidableEq, Repr, Inhabited

namespace FlagSet

variable {Flag : Type}

def isEmpty (flags : FlagSet Flag) : Bool :=
  flags.bits == 0

/-- The flags of both sets. -/
def union (first second : FlagSet Flag) : FlagSet Flag :=
  ⟨first.bits ||| second.bits⟩

variable [FlagKind Flag]

/-- The word in which only the bit of a flag is set. -/
def mask (flag : Flag) : UInt64 :=
  1 <<< FlagKind.position flag

def has (flags : FlagSet Flag) (flag : Flag) : Bool :=
  flags.bits &&& mask flag == mask flag

/-- The set has one of the flags. -/
def hasAny (flags : FlagSet Flag) (candidates : List Flag) : Bool :=
  candidates.any flags.has

def insert (flags : FlagSet Flag) (flag : Flag) : FlagSet Flag :=
  ⟨flags.bits ||| mask flag⟩

/-- Insert several flags. -/
def insertAll (flags : FlagSet Flag) (added : List Flag) : FlagSet Flag :=
  added.foldl insert flags

/-- Insert flags if a condition holds. -/
def insertWhen (flags : FlagSet Flag) (condition : Bool) (added : List Flag) : FlagSet Flag :=
  if condition then flags.insertAll added else flags

/-- The names of the flags in the set, in order. -/
def names (flags : FlagSet Flag) : List String :=
  (FlagKind.all.filter flags.has).map FlagKind.label

end FlagSet

/-! ## Flags of members -/

/-- A flag of an exposed member, a parameter or a return value. -/
inductive PropertyFlag
  | editAnywhere
  | editDefaultsOnly
  | visibleAnywhere
  | scriptReadOnly
  | scriptReadWrite
  | replicated
  | repNotify
  | transient
  | instanced
  | config
  | parameter
  | outParameter
  | returnParameter
  | referenceParameter
  | exported
deriving DecidableEq, Repr

namespace PropertyFlag

def position : PropertyFlag → UInt64
  | editAnywhere => 0
  | editDefaultsOnly => 1
  | visibleAnywhere => 2
  | scriptReadOnly => 3
  | scriptReadWrite => 4
  | replicated => 5
  | repNotify => 6
  | transient => 7
  | instanced => 8
  | config => 9
  | parameter => 10
  | outParameter => 11
  | returnParameter => 12
  | referenceParameter => 13
  | exported => 14

/-- The name of a flag.  A plain annotation for a flag has the same name. -/
def label : PropertyFlag → String
  | editAnywhere => "EditAnywhere"
  | editDefaultsOnly => "EditDefaultsOnly"
  | visibleAnywhere => "VisibleAnywhere"
  | scriptReadOnly => "ScriptReadOnly"
  | scriptReadWrite => "ScriptReadWrite"
  | replicated => "Replicated"
  | repNotify => "RepNotify"
  | transient => "Transient"
  | instanced => "Instanced"
  | config => "Config"
  | parameter => "Param"
  | outParameter => "OutParam"
  | returnParameter => "ReturnParam"
  | referenceParameter => "ReferenceParam"
  | exported => "Export"

/-- Flags that have a plain annotation of their own. -/
def annotated : List PropertyFlag :=
  [editAnywhere, editDefaultsOnly, visibleAnywhere, scriptReadOnly, scriptReadWrite, replicated,
    transient, instanced, config]

instance : FlagKind PropertyFlag where
  all := [editAnywhere, editDefaultsOnly, visibleAnywhere, scriptReadOnly, scriptReadWrite,
    replicated, repNotify, transient, instanced, config, parameter, outParameter, returnParameter,
    referenceParameter, exported]
  position := position
  label := label

/-- Flags that make a member visible in the editor. -/
def editorVisible : List PropertyFlag := [editAnywhere, editDefaultsOnly, visibleAnywhere]

/-- Flags that make a member visible to scripts. -/
def scriptVisible : List PropertyFlag := [scriptReadOnly, scriptReadWrite]

end PropertyFlag

abbrev PropertyFlags := FlagSet PropertyFlag

/-! ## Flags of functions -/

/-- A flag of an exposed function. -/
inductive FunctionFlag
  | callable
  | pureFunction
  | nativeEvent
  | withValidation
  | staticFunction
  | reliable
  | server
  | client
  | multicast
deriving DecidableEq, Repr

namespace FunctionFlag

def position : FunctionFlag → UInt64
  | callable => 0
  | pureFunction => 1
  | nativeEvent => 2
  | withValidation => 3
  | staticFunction => 4
  | reliable => 5
  | server => 6
  | client => 7
  | multicast => 8

/-- The name of a flag. -/
def label : FunctionFlag → String
  | callable => "Callable"
  | pureFunction => "Pure"
  | nativeEvent => "NativeEvent"
  | withValidation => "WithValidation"
  | staticFunction => "Static"
  | reliable => "Reliable"
  | server => "Server"
  | client => "Client"
  | multicast => "Multicast"

instance : FlagKind FunctionFlag where
  all := [callable, pureFunction, nativeEvent, withValidation, staticFunction, reliable, server,
    client, multicast]
  position := position
  label := label

/-- Flags that send a call over the network. -/
def network : List FunctionFlag := [server, client, multicast]

end FunctionFlag

abbrev FunctionFlags := FlagSet FunctionFlag

/-! ## Conditions of replication -/

/-- To whom a replicated member is sent. -/
inductive ReplicationCondition
  | always
  | initialOnly
  | ownerOnly
  | skipOwner
  | simulatedOnly
  | autonomousOnly
  | simulatedOrPhysics
  | initialOrOwner
  | custom
  | never
deriving DecidableEq, Repr

namespace ReplicationCondition

/-- The conditions in the order of the numbers that stand for them. -/
def all : List ReplicationCondition :=
  [always, initialOnly, ownerOnly, skipOwner, simulatedOnly, autonomousOnly, simulatedOrPhysics,
    initialOrOwner, custom, never]

/-- The condition that a number stands for. -/
def ofInt? (value : Int64) : Option ReplicationCondition :=
  if value < 0 then none else all[value.toInt.toNat]?

/-- The name of a condition. -/
def name : ReplicationCondition → String
  | always => "None"
  | initialOnly => "InitialOnly"
  | ownerOnly => "OwnerOnly"
  | skipOwner => "SkipOwner"
  | simulatedOnly => "SimulatedOnly"
  | autonomousOnly => "AutonomousOnly"
  | simulatedOrPhysics => "SimulatedOrPhysics"
  | initialOrOwner => "InitialOrOwner"
  | custom => "Custom"
  | never => "Never"

end ReplicationCondition

/-! ## Gathering flags from annotations -/

namespace Attribute

/-- The word of flags that an annotation gives, without any flags by default. -/
def flagBits (attr : Attribute) : UInt64 :=
  (((attr.named? Annotation.flagsArgument).bind (·.asInt?)).map Int64.toUInt64).getD 0

/-- A truth value given by an argument, false by default. -/
def isTrue (attr : Attribute) (key : String) : Bool :=
  ((attr.named? key).bind (·.asBool?)).getD false

/-- A text given by an argument. -/
def text? (attr : Attribute) (key : String) : Option String :=
  (attr.named? key).bind (·.asString?)

end Attribute

namespace Config

/-- What one annotation adds to the flags of a member.  A property annotation adds the flags it
gives, those of replication if it names a method for notification, and those of ownership if it
asks for a subobject. -/
def addPropertyFlags (config : Config) (flags : PropertyFlags) (attr : Attribute) :
    PropertyFlags :=
  if attr.isNamed (config.annotationName Annotation.nativeProperty) then
    ((flags.union ⟨attr.flagBits⟩).insertWhen
        (nonEmptyText? attr Annotation.replicatedUsingArgument).isSome
          [.replicated, .repNotify]).insertWhen
      (attr.isTrue Annotation.subobjectArgument) [.exported, .instanced]
  else
    flags.insertAll
      (PropertyFlag.annotated.filter fun flag => attr.isNamed (config.annotationName flag.label))

/-- The flags that the annotations of a member give together. -/
def propertyFlags (config : Config) (attributes : List Attribute) : PropertyFlags :=
  attributes.foldl config.addPropertyFlags {}

end Config

/-- The flags of a function with the given annotation. -/
def FunctionFlags.ofAttribute (attr : Attribute) (isStatic : Bool) : FunctionFlags :=
  FlagSet.insertWhen ⟨attr.flagBits⟩ isStatic [.staticFunction]

end NativeWeave
