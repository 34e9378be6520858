import Accumulate.Protocol.Crypto

/-!
# Routing

The routing table of `internal/routing`: overrides for single identities and a
prefix tree over routing numbers, and the routing of envelopes by the locations
of their signatures.
-/

namespace Accumulate.Routing

open Library Protocol

inductive PrefixTree where
  | leaf (partition : String)
  | branch (bits : Nat) (children : List PrefixTree)

mutual

def PrefixTree.route (rn pos : Nat) : PrefixTree → Outcome Error String
  | .leaf partition => .ok partition
  | .branch bits children =>
    routeChild rn (pos + bits) children (rn / 2 ^ (64 - (pos + bits)) % 2 ^ bits)

/-- Route through the child with the given index. -/
def routeChild (rn npos : Nat) : List PrefixTree → Nat → Outcome Error String
  | [], _ => .panic "index out of range"
  | t :: _, 0 => t.route rn npos
  | _ :: rest, i + 1 => routeChild rn npos rest i

end

/-- `RouteTree`.  `routing` is the routing number of an account, the first bytes of
the hash of its root identity. -/
structure RouteTree where
  overrides : List (Url × String)
  root : PrefixTree
  routing : Url → Nat

def RouteTree.route (t : RouteTree) (u : Url) : Outcome Error String :=
  match t.overrides.lookup u.rootIdentity with
  | some partition => .ok partition
  | none => t.root.route (t.routing u) 0

abbrev Router := Option RouteTree

def Router.routeAccount (r : Router) (account : Option Url) : Outcome Error String :=
  match r with
  | none => .error (.new .internalError "the routing table has not been initialized")
  | some tree =>
    match account with
    | none => .panic "nil URL"
    | some u =>
      if isUnknown u then .error (.new .badRequest "URL is unknown, cannot route")
      else tree.route u

mutual

theorem raises_route (rn pos : Nat) : ∀ t : PrefixTree,
    Outcome.Raises Error.Failing (t.route rn pos)
  | .leaf _ => .ok _
  | .branch _ children => raises_routeChild rn _ children _

theorem raises_routeChild (rn npos : Nat) : ∀ (l : List PrefixTree) (i : Nat),
    Outcome.Raises Error.Failing (routeChild rn npos l i)
  | [], _ => .panic _
  | t :: _, 0 => raises_route rn npos t
  | _ :: rest, i + 1 => raises_routeChild rn npos rest i

end

theorem raises_routeAccount (r : Router) (account : Option Url) :
    Outcome.Raises Error.Failing (r.routeAccount account) := by
  unfold Router.routeAccount
  split
  · exact .error rfl
  split
  · exact .panic _
  refine .ite (.error rfl) ?_
  unfold RouteTree.route
  split
  · exact .ok _
  · exact raises_route _ _ _

def routeSignatures (r : Router) : List Signature → String → Outcome Error String
  | [], route => .ok route
  | sig :: rest, route => do
      let location ← sig.routingLocation
      let sigRoute ← r.routeAccount location
      if route = "" then routeSignatures r rest sigRoute
      else if route ≠ sigRoute then
        .error (.new .badRequest "cannot route envelope(s): conflicting routes")
      else routeSignatures r rest route

def routeEnvelopesFrom (r : Router) : List Envelope → String → Outcome Error String
  | [], route => .ok route
  | env :: rest, route => do
      if env.signatures.isEmpty then
        .error (.new .badRequest "cannot route envelope: no signatures")
      else
        let route ← routeSignatures r env.signatures route
        routeEnvelopesFrom r rest route

def routeEnvelopes (r : Router) (envs : List Envelope) : Outcome Error String :=
  if envs.isEmpty then .error (.new .badRequest "nothing to route")
  else routeEnvelopesFrom r envs ""

end Accumulate.Routing
