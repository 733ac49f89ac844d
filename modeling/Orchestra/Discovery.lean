-- The directory of signed agent cards (`identity/discovery.py`): each DID has its newest cards,
-- and only a revocation takes one back.
import Orchestra.PeerDid
import Orchestra.Lib.Best
import Orchestra.Lib.Dict
import Mathlib.Algebra.Order.Ring.Rat
import Mathlib.Data.List.Induction

open best dicts texts orchestra.peer_did

namespace orchestra.discovery

/-! ## Agent cards -/

structure AgentCard where
  did : String
  name : String
  agentType : String
  capabilities : List String
  version : Int
  expiresAt : Option Rat
  natsUrl : Option String
  metadata : Value
  signature : Option String

namespace AgentCard

/-- `a == b`, field by field. -/
def equals (a b : AgentCard) : Bool :=
  a.did = b.did && a.name = b.name && a.agentType = b.agentType &&
    a.capabilities = b.capabilities && a.version = b.version && a.expiresAt = b.expiresAt &&
    a.natsUrl = b.natsUrl && a.metadata.equals b.metadata && a.signature = b.signature

@[simp] theorem equals_self (a : AgentCard) : a.equals a = true := by simp [equals, Value.equals]

def isExpired (card : AgentCard) (now : Rat) : Bool :=
  match card.expiresAt with
  | none => false
  | some expiresAt => expiresAt < now

end AgentCard

/-- What the directory takes from outside: the codecs of a DID, the keys and signatures of JWS,
and the JSON that a card is signed as. -/
structure Host (Key : Type) where
  codec : Codec String
  importKey : Bytes → Except Raised Key
  payload : String → Key → Option Bytes
  toJson : AgentCard → Bytes

variable {Key : Type}

/-- `verify_jws`, without a revocation list. -/
def verifyJws (H : Host Key) (card : AgentCard) (key : Key) : Bool :=
  match card.signature with
  | none => false
  | some signature => signature ≠ "" && H.payload signature key = some (H.toJson card)

/-! ## The directory -/

structure SignedDiscoveryProvider where
  cards : Dict String (List AgentCard)
  maxCardsPerDid : Nat

/-- `_resolve_key_from_did` -/
def resolveKeyFromDid (H : Host Key) (did : String) : Except Raised Key :=
  if startsWith did didMethod then
    match resolvePeerDid H.codec did with
    | .error e => .error e
    | .ok doc =>
      match doc.verificationMethod.find? (·.type = "Ed25519VerificationKey2020") with
      | none =>
        .error ⟨"ValueError", "No Ed25519 verification method found in " ++ did, false⟩
      | some vm =>
        match H.codec.b58decode (String.ofList (vm.publicKeyMultibase.toList.drop 1)) with
        | .error e => .error e
        | .ok pub => H.importKey pub
  else
    .error ⟨"NotImplementedError", "Automated resolution for " ++ did ++
      " not yet fully implemented in discovery.py", false⟩

/-- Of cards with one version the first. -/
def currentBest (first : AgentCard) (rest : List AgentCard) : AgentCard :=
  maxBy (·.version) first rest

/-- Newest first. -/
def sortCards (cards : List AgentCard) : List AgentCard :=
  cards.mergeSort fun a b => b.version ≤ a.version

/-- The cards of a DID with a new one, unless it is older than what is there. -/
def withCard (existing : List AgentCard) (card : AgentCard) : Option (List AgentCard) :=
  match existing with
  | [] => some (sortCards [card])
  | first :: rest =>
    let best := currentBest first rest
    if card.version < best.version then none
    else if card.version = best.version then
      some (sortCards (existing.eraseP (·.equals best) ++ [card]))
    else some (sortCards (existing ++ [card]))

/-- The key that a card is verified with. -/
def keyFor (H : Host Key) (card : AgentCard) : Option Key → Except Raised Key
  | some key => .ok key
  | none => resolveKeyFromDid H card.did

namespace SignedDiscoveryProvider

/-- `register`, at the time `now`. -/
def register (H : Host Key) (p : SignedDiscoveryProvider) (card : AgentCard)
    (verificationKey : Option Key) (now : Rat) : SignedDiscoveryProvider × Except Raised Bool :=
  if card.signature.getD "" = "" then (p, .ok false)
  else
    match keyFor H card verificationKey with
    | .error e => (p, .error e)
    | .ok key =>
      if !verifyJws H card key then (p, .ok false)
      else if card.isExpired now then (p, .ok false)
      else
        match withCard ((p.cards.get? card.did).getD []) card with
        | none => (p, .ok false)
        | some cards =>
          ({ p with cards := p.cards.set card.did (cards.take p.maxCardsPerDid) }, .ok true)

def lookup (p : SignedDiscoveryProvider) (did : String) : Option AgentCard :=
  (p.cards.get? did).bind List.head?

def revoke (p : SignedDiscoveryProvider) (did : String) : SignedDiscoveryProvider :=
  { p with cards := p.cards.erase did }

end SignedDiscoveryProvider

/-! ## Runs -/

inductive Operation (Key : Type)
  | register (card : AgentCard) (verificationKey : Option Key) (now : Rat)
  | revoke (did : String)

/-- The directory after an operation, and the versions of a DID that it has accepted since the
last revocation of the DID. -/
def apply (H : Host Key) (did : String) (s : SignedDiscoveryProvider × List Int) :
    Operation Key → SignedDiscoveryProvider × List Int
  | .register card key now =>
    match s.1.register H card key now with
    | (p, .ok true) => (p, if card.did = did then s.2 ++ [card.version] else s.2)
    | (p, _) => (p, s.2)
  | .revoke other => (s.1.revoke other, if other = did then [] else s.2)

def after (H : Host Key) (maxCardsPerDid : Nat) (did : String) (operations : List (Operation Key)) :
    SignedDiscoveryProvider × List Int :=
  operations.foldl (apply H did) (⟨.empty, maxCardsPerDid⟩, [])

/-! ## The cards of one DID -/

/-- Each card is older than the one before it. -/
def Newest (cards : List AgentCard) : Prop := cards.Pairwise fun a b => b.version < a.version

/-- A list in order is what any order of it is sorted to. -/
theorem sortCards_of_perm {cards sorted : List AgentCard} (h : Newest sorted)
    (hperm : cards.Perm sorted) : sortCards cards = sorted := by
  have hsame : (sortCards cards).Perm sorted := (List.mergeSort_perm _ _).trans hperm
  have hle : (sortCards cards).Pairwise fun a b => decide (b.version ≤ a.version) = true :=
    List.pairwise_mergeSort (fun a b c hab hbc => by simp only [decide_eq_true_eq] at *; omega)
      (fun a b => by simp only [Bool.or_eq_true, decide_eq_true_eq]; omega) cards
  have hne : (sortCards cards).Pairwise fun a b => a.version ≠ b.version :=
    (hsame.pairwise_iff fun hab => hab.symm).mpr (h.imp fun hlt => by omega)
  have hnewest : Newest (sortCards cards) :=
    (hle.and hne).imp fun hboth => by simp only [decide_eq_true_eq] at hboth; omega
  exact hsame.eq_of_pairwise (fun a b _ _ hab hba => absurd hab (by omega)) hnewest h

/-- The first card of a list in order is the best. -/
theorem currentBest_of_newest {first : AgentCard} {rest : List AgentCard}
    (h : Newest (first :: rest)) : currentBest first rest = first := by
  have holder := (List.pairwise_cons.mp h).1
  exact maxBy_of_le _ fun card hcard => by have := holder card hcard; omega

/-- A card that is taken in comes first. It takes the place of one with its version. -/
theorem withCard_newest {existing cards : List AgentCard} (h : Newest existing) {card : AgentCard}
    (hcards : withCard existing card = some cards) :
    Newest cards ∧ cards.head? = some card ∧
      ∀ best ∈ existing.head?, best.version ≤ card.version := by
  unfold withCard at hcards
  cases existing with
  | nil =>
    obtain rfl := Option.some.inj hcards
    have hsorted : Newest [card] := List.pairwise_singleton _ _
    rw [sortCards_of_perm hsorted (List.Perm.refl _)]
    exact ⟨hsorted, rfl, by simp⟩
  | cons first rest =>
    have hparts := List.pairwise_cons.mp h
    simp only [currentBest_of_newest h] at hcards
    split at hcards
    · cases hcards
    rename_i hnew
    have hbest : ∀ best ∈ (first :: rest).head?, best.version ≤ card.version := by
      intro best hbest
      obtain rfl := Option.some.inj hbest
      omega
    split at hcards
    · rename_i hsame
      obtain rfl := Option.some.inj hcards
      have hsorted : Newest (card :: rest) :=
        List.pairwise_cons.mpr ⟨fun c hc => by have := hparts.1 c hc; omega, hparts.2⟩
      rw [List.eraseP_cons_of_pos (by simp),
        sortCards_of_perm hsorted (List.perm_append_singleton card rest)]
      exact ⟨hsorted, rfl, hbest⟩
    · obtain rfl := Option.some.inj hcards
      have hsorted : Newest (card :: first :: rest) := by
        refine List.pairwise_cons.mpr ⟨fun c hc => ?_, h⟩
        rcases List.mem_cons.mp hc with rfl | hrest
        · omega
        · have := hparts.1 c hrest
          omega
      rw [sortCards_of_perm hsorted (List.perm_append_singleton card (first :: rest))]
      exact ⟨hsorted, rfl, hbest⟩

/-! ## Any sequence of operations -/

variable {H : Host Key} {p : SignedDiscoveryProvider} {did : String} {maxCardsPerDid : Nat}
  {s : SignedDiscoveryProvider × List Int}

def cardsOf (p : SignedDiscoveryProvider) (did : String) : List AgentCard :=
  (p.cards.get? did).getD []

theorem lookup_eq (p : SignedDiscoveryProvider) (did : String) :
    p.lookup did = (cardsOf p did).head? := by
  unfold SignedDiscoveryProvider.lookup cardsOf
  cases p.cards.get? did <;> rfl

/-- A registration that does not return true leaves the directory as it is. -/
theorem register_cases (H : Host Key) (p : SignedDiscoveryProvider) (card : AgentCard)
    (verificationKey : Option Key) (now : Rat) :
    (∃ r, r ≠ .ok true ∧ p.register H card verificationKey now = (p, r)) ∨
      ∃ cards, withCard (cardsOf p card.did) card = some cards ∧
        p.register H card verificationKey now =
          ({ p with cards := p.cards.set card.did (cards.take p.maxCardsPerDid) }, .ok true) := by
  unfold SignedDiscoveryProvider.register
  split
  · exact Or.inl ⟨_, by simp, rfl⟩
  split
  · exact Or.inl ⟨_, by simp, rfl⟩
  split
  · exact Or.inl ⟨_, by simp, rfl⟩
  split
  · exact Or.inl ⟨_, by simp, rfl⟩
  split
  · exact Or.inl ⟨_, by simp, rfl⟩
  · rename_i cards hcards
    exact Or.inr ⟨cards, hcards, rfl⟩

/-- The cards of a DID, against the versions that it accepted since its last revocation. -/
structure Forward (maxCardsPerDid : Nat) (did : String) (s : SignedDiscoveryProvider × List Int) :
    Prop where
  room : s.1.maxCardsPerDid = maxCardsPerDid
  newest : Newest (cardsOf s.1 did)
  bounded : (cardsOf s.1 did).length ≤ maxCardsPerDid
  last : (s.1.lookup did).map (·.version) = s.2.getLast?
  order : s.2.Pairwise (· ≤ ·)

/-- The versions are in order, so the last one is the highest. -/
theorem Forward.highest (h : Forward maxCardsPerDid did s) {card : AgentCard}
    (hcard : s.1.lookup did = some card) : ∀ v ∈ s.2, v ≤ card.version := by
  have hlast : s.2.getLast? = some card.version := by rw [← h.last, hcard]; rfl
  obtain ⟨init, hinit⟩ := List.getLast?_eq_some_iff.mp hlast
  have horder := h.order
  rw [hinit, List.pairwise_append] at horder
  intro v hv
  rw [hinit] at hv
  rcases List.mem_append.mp hv with hbefore | hself
  · exact horder.2.2 v hbefore card.version (List.mem_singleton_self _)
  · exact (List.mem_singleton.mp hself).le

theorem forward_accepted (h : Forward maxCardsPerDid did s) (hmax : 1 ≤ maxCardsPerDid)
    {card : AgentCard} {cards : List AgentCard}
    (hcards : withCard (cardsOf s.1 card.did) card = some cards) :
    Forward maxCardsPerDid did
      ({ s.1 with cards := s.1.cards.set card.did (cards.take s.1.maxCardsPerDid) },
        if card.did = did then s.2 ++ [card.version] else s.2) := by
  by_cases heq : card.did = did
  · subst heq
    obtain ⟨hnewest, hhead, hbest⟩ := withCard_newest h.newest hcards
    have hset : cardsOf { s.1 with
        cards := s.1.cards.set card.did (cards.take s.1.maxCardsPerDid) } card.did =
          cards.take maxCardsPerDid := by
      unfold cardsOf
      rw [Dict.get?_set_self, Option.getD_some, h.room]
    rw [if_pos rfl]
    refine ⟨h.room, ?_, ?_, ?_, ?_⟩
    · rw [hset]
      exact hnewest.sublist (List.take_sublist _ _)
    · rw [hset]
      exact List.length_take_le _ _
    · rw [lookup_eq, hset, List.head?_take, if_neg (by omega), hhead, List.getLast?_concat]
      rfl
    · rw [List.pairwise_append]
      refine ⟨h.order, List.pairwise_singleton _ _, fun v hv w hw => ?_⟩
      rw [List.mem_singleton.mp hw]
      rcases hbefore : s.1.lookup card.did with _ | best
      · have hnone := h.last
        rw [hbefore, Option.map_none] at hnone
        rw [List.getLast?_eq_none_iff.mp hnone.symm] at hv
        cases hv
      · refine (h.highest hbefore v hv).trans (hbest best ?_)
        rw [lookup_eq] at hbefore
        exact hbefore
  · have hset : cardsOf { s.1 with
        cards := s.1.cards.set card.did (cards.take s.1.maxCardsPerDid) } did =
          cardsOf s.1 did := by
      unfold cardsOf
      rw [Dict.get?_set_ne _ _ heq]
    rw [if_neg heq]
    refine ⟨h.room, ?_, ?_, ?_, h.order⟩
    · rw [hset]
      exact h.newest
    · rw [hset]
      exact h.bounded
    · rw [lookup_eq, hset, ← lookup_eq]
      exact h.last

theorem forward_revoke (h : Forward maxCardsPerDid did s) (other : String) :
    Forward maxCardsPerDid did (s.1.revoke other, if other = did then [] else s.2) := by
  by_cases heq : other = did
  · have hnone : cardsOf (s.1.revoke other) did = [] := by
      unfold cardsOf SignedDiscoveryProvider.revoke
      rw [Dict.get?_erase, if_pos heq]
      rfl
    rw [if_pos heq]
    refine ⟨h.room, ?_, ?_, ?_, List.Pairwise.nil⟩
    · rw [hnone]
      exact List.Pairwise.nil
    · rw [hnone]
      exact Nat.zero_le _
    · rw [lookup_eq, hnone]
      rfl
  · have hsame : cardsOf (s.1.revoke other) did = cardsOf s.1 did := by
      unfold cardsOf SignedDiscoveryProvider.revoke
      rw [Dict.get?_erase, if_neg heq]
    rw [if_neg heq]
    refine ⟨h.room, ?_, ?_, ?_, h.order⟩
    · rw [hsame]
      exact h.newest
    · rw [hsame]
      exact h.bounded
    · rw [lookup_eq, hsame, ← lookup_eq]
      exact h.last

theorem forward_apply (h : Forward maxCardsPerDid did s) (hmax : 1 ≤ maxCardsPerDid)
    (operation : Operation Key) : Forward maxCardsPerDid did (apply H did s operation) := by
  cases operation with
  | register card key now =>
    unfold apply
    obtain ⟨r, hr, heq⟩ | ⟨cards, hcards, heq⟩ := register_cases H s.1 card key now
    · simp only [heq]
      exact h
    · simp only [heq]
      exact forward_accepted h hmax hcards
  | revoke other => exact forward_revoke h other

theorem forward_after (H : Host Key) (hmax : 1 ≤ maxCardsPerDid) (did : String)
    (operations : List (Operation Key)) :
    Forward maxCardsPerDid did (after H maxCardsPerDid did operations) := by
  induction operations using List.reverseRecOn with
  | nil => exact ⟨rfl, List.Pairwise.nil, Nat.zero_le _, rfl, List.Pairwise.nil⟩
  | append_singleton operations operation ih =>
    have hsnoc : after H maxCardsPerDid did (operations ++ [operation]) =
        apply H did (after H maxCardsPerDid did operations) operation := by
      simp only [after, List.foldl_append, List.foldl_cons, List.foldl_nil]
    rw [hsnoc]
    exact forward_apply ih hmax operation

/-- Until the DID is revoked, the versions that it has accepted stay. -/
theorem accepted_apply (s : SignedDiscoveryProvider × List Int) {operation : Operation Key}
    (h : operation ≠ .revoke did) : s.2 <+: (apply H did s operation).2 := by
  cases operation with
  | register card key now =>
    obtain ⟨r, hr, heq⟩ | ⟨cards, -, heq⟩ := register_cases H s.1 card key now
    · simp only [apply, heq]
      exact List.prefix_refl _
    · simp only [apply, heq]
      split
      · exact List.prefix_append _ _
      · exact List.prefix_refl _
  | revoke other =>
    have hne : other ≠ did := fun heq => h (by rw [heq])
    simp only [apply, if_neg hne]
    exact List.prefix_refl _

theorem accepted_after (H : Host Key) (maxCardsPerDid : Nat) (did : String)
    (before later : List (Operation Key)) (h : .revoke did ∉ later) :
    (after H maxCardsPerDid did before).2 <+:
      (after H maxCardsPerDid did (before ++ later)).2 := by
  induction later using List.reverseRecOn with
  | nil =>
    rw [List.append_nil]
  | append_singleton later operation ih =>
    have hsnoc : after H maxCardsPerDid did (before ++ (later ++ [operation])) =
        apply H did (after H maxCardsPerDid did (before ++ later)) operation := by
      simp only [after, List.foldl_append, List.foldl_cons, List.foldl_nil]
    rw [List.mem_append, not_or] at h
    rw [hsnoc]
    refine (ih h.1).trans (accepted_apply _ fun heq => h.2 ?_)
    rw [heq]
    exact List.mem_singleton_self _

/-- The card that is looked up has the highest version that was accepted, and there is one once
any was accepted. -/
theorem Forward.found (h : Forward maxCardsPerDid did s) {v : Int} (hv : v ∈ s.2) :
    ∃ card, s.1.lookup did = some card ∧ v ≤ card.version := by
  rcases hcard : s.1.lookup did with _ | card
  · have hnone := h.last
    rw [hcard, Option.map_none] at hnone
    rw [List.getLast?_eq_none_iff.mp hnone.symm] at hv
    cases hv
  · exact ⟨card, rfl, h.highest hcard v hv⟩

theorem Forward.accepted (h : Forward maxCardsPerDid did s) {card : AgentCard}
    (hcard : s.1.lookup did = some card) : card.version ∈ s.2 := by
  have hlast : s.2.getLast? = some card.version := by rw [← h.last, hcard]; rfl
  exact List.mem_of_getLast? hlast

/-- The directory moves forward only: after any operations a DID has at most so many cards, each
older than the one before it; the one that is looked up has the highest version accepted since
the last revocation; and it is not replaced by an older one until the DID is revoked. -/
theorem directory_moves_forward (H : Host Key) (maxCardsPerDid : Nat) (hmax : 1 ≤ maxCardsPerDid)
    (did : String) (operations : List (Operation Key)) :
    (∀ cards, (after H maxCardsPerDid did operations).1.cards.get? did = some cards →
      cards.Pairwise (fun a b => b.version < a.version) ∧ cards.length ≤ maxCardsPerDid) ∧
    ((after H maxCardsPerDid did operations).1.lookup did = none ↔
      (after H maxCardsPerDid did operations).2 = []) ∧
    (∀ card, (after H maxCardsPerDid did operations).1.lookup did = some card →
      card.version ∈ (after H maxCardsPerDid did operations).2 ∧
        ∀ v ∈ (after H maxCardsPerDid did operations).2, v ≤ card.version) ∧
    ∀ later, .revoke did ∉ later → ∀ card,
      (after H maxCardsPerDid did operations).1.lookup did = some card → ∃ card',
        (after H maxCardsPerDid did (operations ++ later)).1.lookup did = some card' ∧
          card.version ≤ card'.version := by
  have hforward := forward_after H hmax did operations
  refine ⟨fun cards hcards => ?_, ?_, fun card hcard => ?_, fun later hlater card hcard => ?_⟩
  · have heq : cardsOf (after H maxCardsPerDid did operations).1 did = cards := by
      unfold cardsOf
      rw [hcards, Option.getD_some]
    rw [← heq]
    exact ⟨hforward.newest, hforward.bounded⟩
  · rw [← List.getLast?_eq_none_iff, ← hforward.last, Option.map_eq_none_iff]
  · exact ⟨hforward.accepted hcard, hforward.highest hcard⟩
  · exact (forward_after H hmax did (operations ++ later)).found
      ((accepted_after H maxCardsPerDid did operations later hlater).subset
        (hforward.accepted hcard))

/-- Signatures that say the version of their card. -/
def tallyHost : Host Unit where
  codec := ⟨fun _ => "", fun _ => .ok [], id, fun _ => "", fun _ => .ok []⟩
  importKey _ := .ok ()
  payload signature _ := some [UInt8.ofNat signature.length]
  toJson card := [UInt8.ofNat card.version.toNat]

def signedCard (version : Nat) : AgentCard :=
  ⟨"did:peer:2", "scout", "worker", [], version, none, none, .dict [],
    some (String.ofList (List.replicate version 's'))⟩

theorem a_stale_card_is_not_taken : ∃ card,
    (after tallyHost 2 "did:peer:2" [.register (signedCard 3) (some ()) 0,
      .register (signedCard 2) (some ()) 0]).1.lookup "did:peer:2" = some card ∧
        3 ≤ card.version := by
  have hfirst : (after tallyHost 2 "did:peer:2" [.register (signedCard 3) (some ()) 0]).1.lookup
      "did:peer:2" = some (signedCard 3) := by
    have hsorted : sortCards [signedCard 3] = [signedCard 3] := List.mergeSort_singleton _
    have hcards : withCard [] (signedCard 3) = some [signedCard 3] := congrArg some hsorted
    have hverified : verifyJws tallyHost (signedCard 3) () = true := by decide +kernel
    have hsigned : (signedCard 3).signature.getD "" ≠ "" := by decide
    simp only [after, List.foldl_cons, List.foldl_nil, apply, SignedDiscoveryProvider.register,
      hsigned, if_false, keyFor, hverified, Dict.get?_empty, Option.getD_none, hcards]
    rfl
  exact (directory_moves_forward tallyHost 2 (by decide) "did:peer:2"
    [.register (signedCard 3) (some ()) 0]).2.2.2 [.register (signedCard 2) (some ()) 0]
      (by simp) (signedCard 3) hfirst

end orchestra.discovery
