import Uqda.Addressing.Core
import Uqda.Bits.Octet
import Mathlib.Data.List.Perm.Basic
import Mathlib.Logic.Function.Basic

/-!
# Multicast interfaces

The embedding of the rules in `src/multicast`: how the configured rules become
options in `cmd/uqda/main.go`, how `_applyOption` stores them, and how
`_getAllowedInterfaces` picks a rule for each network interface.

The rules are stored as the keys of a map.  A `range` statement over a map visits
the keys in an order that the runtime chooses anew each time, so an iteration order
is an argument here, and it may be any arrangement of the keys.

A regular expression is an element of an arbitrary type with a matching predicate.
An option holds a pointer to a compiled expression, and two options are equal as map
keys only if the pointers are.
-/

namespace Uqda.Multicast

open Uqda.Addressing

/-! ## Rules and options -/

/-- `MulticastInterfaceConfig`: one rule of the configuration. -/
structure Rule (ρ : Type) where
  regex : ρ
  beacon : Bool
  listen : Bool
  port : UInt16
  priority : UInt64
  password : Bytes
  deriving DecidableEq

/-- `MulticastInterface`.  The expression is given by its pointer. -/
structure MulticastInterface where
  regex : Nat
  beacon : Bool
  listen : Bool
  port : UInt16
  priority : UInt8
  password : Bytes
  deriving DecidableEq

/-- The option that `main` makes of a rule whose expression was compiled to the
pointer. -/
def Rule.option {ρ : Type} (rule : Rule ρ) (pointer : Nat) : MulticastInterface where
  regex := pointer
  beacon := rule.beacon
  listen := rule.listen
  port := rule.port
  priority := rule.priority.toUInt8
  password := rule.password

/-- The options that `main` passes to `New`.  Every expression is compiled anew. -/
def options {ρ : Type} (rules : List (Rule ρ)) : List MulticastInterface :=
  rules.zipIdx.map fun (rule, pointer) => rule.option pointer

/-- `_applyOption` on the keys of `config._interfaces`. -/
def applyOption (interfaces : List MulticastInterface) (opt : MulticastInterface) :
    List MulticastInterface :=
  if opt ∈ interfaces then interfaces else interfaces ++ [opt]

/-- The keys of `config._interfaces` after `New`. -/
def configured {ρ : Type} (rules : List (Rule ρ)) : List MulticastInterface :=
  (options rules).foldl applyOption []

/-! ## Interfaces -/

/-- The flags of a network interface that are tested. -/
structure Flags where
  up : Bool
  running : Bool
  multicast : Bool
  pointToPoint : Bool
  deriving DecidableEq

/-- `net.Interface`. -/
structure Iface where
  name : String
  flags : Flags
  deriving DecidableEq

/-- The switch on the flags. -/
def Iface.usable (iface : Iface) : Bool :=
  iface.flags.up && iface.flags.running && iface.flags.multicast && !iface.flags.pointToPoint

/-- `interfaceInfo`, as `_getAllowedInterfaces` fills it. -/
structure InterfaceInfo where
  iface : Iface
  beacon : Bool
  listen : Bool
  port : UInt16
  priority : UInt8
  password : Bytes
  hash : Bytes
  deriving DecidableEq

/-- What `_getAllowedInterfaces` reads beside the rules: the matching predicate on
expressions, the compiled expressions by pointer, keyed BLAKE2b-512 and the public
key of the node. -/
structure Environment (ρ : Type) where
  matchString : ρ → String → Bool
  regexps : List ρ
  blake2b : Bytes → Bytes → Bytes
  publicKey : PublicKey

variable {ρ : Type}

/-- `Regex.MatchString` through a pointer. -/
def Environment.matches (env : Environment ρ) (pointer : Nat) (name : String) : Bool :=
  match env.regexps[pointer]? with
  | some regex => env.matchString regex name
  | none => false

/-- The inner loop: the information for the first rule in the order of iteration that
passes all tests. -/
def Environment.choose (env : Environment ρ) (iface : Iface) :
    List MulticastInterface → Option InterfaceInfo
  | [] => none
  | ifcfg :: order =>
      if !ifcfg.beacon && !ifcfg.listen then
        env.choose iface order
      else if !env.matches ifcfg.regex iface.name then
        env.choose iface order
      else if ifcfg.password.length > 64 then
        env.choose iface order
      else if env.publicKey.length ≠ publicKeySize then
        env.choose iface order
      else
        some
          { iface := iface
            beacon := ifcfg.beacon
            listen := ifcfg.listen
            port := ifcfg.port
            priority := ifcfg.priority
            password := ifcfg.password
            hash := env.blake2b ifcfg.password env.publicKey }

/-- One iteration of the outer loop, with the order in which the rules are visited. -/
def Environment.visit (env : Environment ρ) (interfaces : String → Option InterfaceInfo)
    (iface : Iface) (order : List MulticastInterface) : String → Option InterfaceInfo :=
  if iface.usable then
    match env.choose iface order with
    | some info => Function.update interfaces iface.name (some info)
    | none => interfaces
  else
    interfaces

/-- `_getAllowedInterfaces` for the interfaces that the system reports, each with the
order in which its inner loop visits the rules. -/
def Environment.getAllowedInterfaces (env : Environment ρ)
    (allifaces : List (Iface × List MulticastInterface)) : String → Option InterfaceInfo :=
  allifaces.foldl (fun interfaces visited => env.visit interfaces visited.1 visited.2)
    fun _ => none

end Uqda.Multicast
