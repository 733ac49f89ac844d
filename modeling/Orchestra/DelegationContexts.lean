-- The chain of agents behind a call (`identity/types.py`, `DelegationContext`). It is kept with its
-- ends and its depth, and goes over the wire as one text, in which a comma stands between two DIDs.
import Orchestra.DidDocuments
import Orchestra.Lib.Machine

open machine orchestra.peer_did orchestra.did_documents
open texts (join split split_ne_nil split_join join_split length_split)

namespace orchestra.delegation_contexts

/-! ## Contexts -/

structure DelegationContext where
  chain : List String
  issuerDid : String
  currentDid : String
  depth : Int
  maxDepth : Int := 3
deriving DecidableEq, Repr

/-- `DelegationDepthExceededError` -/
structure DepthExceeded where
  depth : Int
  maxDepth : Int
deriving DecidableEq, Repr

/-- `str(exc)` -/
def DepthExceeded.message (e : DepthExceeded) : String :=
  "Delegation depth " ++ toString e.depth ++ " >= max " ++ toString e.maxDepth

namespace DelegationContext

def root (did : String) (maxDepth : Int) : DelegationContext where
  chain := [did]
  issuerDid := did
  currentDid := did
  depth := 0
  maxDepth

def delegateTo (c : DelegationContext) (childDid : String) :
    Except DepthExceeded DelegationContext :=
  if c.maxDepth ≤ c.depth then .error ⟨c.depth, c.maxDepth⟩
  else
    let newChain := c.chain ++ [childDid]
    .ok {
      chain := newChain
      issuerDid := c.issuerDid
      currentDid := childDid
      depth := newChain.length - 1
      maxDepth := c.maxDepth }

def toBaggageValue (c : DelegationContext) : String := join ',' c.chain

def fromBaggageValue (value : String) (maxDepth : Int) : DelegationContext :=
  let dids := split value ','
  { chain := dids
    issuerDid := dids.head (split_ne_nil value ',')
    currentDid := dids.getLast (split_ne_nil value ',')
    depth := dids.length - 1
    maxDepth }

/-- The context after a call. One that cannot be delegated stays as it is. -/
def after (c : DelegationContext) (childDid : String) : DelegationContext :=
  match c.delegateTo childDid with
  | .ok d => d
  | .error _ => c

end DelegationContext

open DelegationContext

/-- All sequences of calls, from the roots with this limit. -/
def delegations (maxDepth : Int) : Machine DelegationContext String where
  init c := ∃ did, c = root did maxDepth
  step c childDid d := d = c.after childDid

/-! ## The invariant -/

/-- The other fields say what the chain says, and it is not too long. -/
structure Consistent (c : DelegationContext) : Prop where
  depth_eq : c.depth = c.chain.length - 1
  depth_le : c.depth ≤ c.maxDepth
  issuer : c.chain.head? = some c.issuerDid
  current : c.chain.getLast? = some c.currentDid

variable {c d : DelegationContext} {maxDepth : Int}

theorem consistent_root (did : String) (h : 0 ≤ maxDepth) : Consistent (root did maxDepth) where
  depth_eq := rfl
  depth_le := h
  issuer := rfl
  current := rfl

theorem Consistent.ne_nil (h : Consistent c) : c.chain ≠ [] := by
  intro hnil
  have hissuer := h.issuer
  rw [hnil] at hissuer
  cases hissuer

/-- A call appends the child to a chain that is not at its limit. -/
theorem delegateTo_ok_iff {childDid : String} : c.delegateTo childDid = .ok d ↔
    c.depth < c.maxDepth ∧
      d = ⟨c.chain ++ [childDid], c.issuerDid, childDid, c.chain.length, c.maxDepth⟩ := by
  unfold delegateTo
  split
  · rename_i hfull
    simp only [reduceCtorEq, false_iff, not_and]
    omega
  · rename_i hfree
    simp only [Except.ok.injEq, List.length_append, List.length_singleton, Nat.cast_add,
      Nat.cast_one, add_sub_cancel_right]
    constructor
    · intro h
      exact ⟨by omega, h.symm⟩
    · intro h
      exact h.2.symm

theorem consistent_delegateTo (h : Consistent c) {childDid : String}
    (hd : c.delegateTo childDid = .ok d) : Consistent d := by
  obtain ⟨hfree, rfl⟩ := delegateTo_ok_iff.mp hd
  have hdepth := h.depth_eq
  constructor
  · simp
  · simp only
    omega
  · rw [List.head?_append_of_ne_nil _ h.ne_nil]
    exact h.issuer
  · simp

theorem after_cases (c : DelegationContext) (childDid : String) :
    c.after childDid = c ∨ c.delegateTo childDid = .ok (c.after childDid) := by
  unfold after
  cases c.delegateTo childDid with
  | ok d => exact .inr rfl
  | error e => exact .inl rfl

theorem consistent_after (h : Consistent c) (childDid : String) :
    Consistent (c.after childDid) := by
  rcases after_cases c childDid with hsame | hd
  · rw [hsame]
    exact h
  · exact consistent_delegateTo h hd

theorem maxDepth_after (c : DelegationContext) (childDid : String) :
    (c.after childDid).maxDepth = c.maxDepth := by
  rcases after_cases c childDid with hsame | hd
  · rw [hsame]
  · obtain ⟨-, heq⟩ := delegateTo_ok_iff.mp hd
    rw [heq]

theorem consistent_of_reachable (hmax : 0 ≤ maxDepth) (h : Reachable (delegations maxDepth) c) :
    Consistent c ∧ c.maxDepth = maxDepth := by
  refine h.invariant (I := fun c => Consistent c ∧ c.maxDepth = maxDepth) ?_ ?_
  · rintro _ ⟨did, rfl⟩
    exact ⟨consistent_root did hmax, rfl⟩
  · rintro c childDid _ ⟨hc, hlimit⟩ rfl
    exact ⟨consistent_after hc childDid, (maxDepth_after c childDid).trans hlimit⟩

/-! ## The wire -/

/-- A context is made up of its chain and its limit. -/
theorem Consistent.ext (hc : Consistent c) (hd : Consistent d) (hchain : c.chain = d.chain)
    (hlimit : c.maxDepth = d.maxDepth) : c = d := by
  have hdepth : c.depth = d.depth := by rw [hc.depth_eq, hd.depth_eq, hchain]
  have hissuer : c.issuerDid = d.issuerDid := by
    rw [← Option.some_inj, ← hc.issuer, ← hd.issuer, hchain]
  have hcurrent : c.currentDid = d.currentDid := by
    rw [← Option.some_inj, ← hc.current, ← hd.current, hchain]
  cases c
  cases d
  cases hchain
  cases hlimit
  cases hdepth
  cases hissuer
  cases hcurrent
  rfl

/-- What is read from the wire fits together. Its length is not checked. -/
theorem consistent_fromBaggageValue_iff (value : String) (maxDepth : Int) :
    Consistent (fromBaggageValue value maxDepth) ↔ value.toList.count ',' ≤ maxDepth := by
  have hdepth : (fromBaggageValue value maxDepth).depth = value.toList.count ',' := by
    simp [fromBaggageValue, length_split]
  constructor
  · intro h
    rw [← hdepth]
    exact h.depth_le
  · intro h
    refine ⟨rfl, ?_, ?_, ?_⟩
    · rw [hdepth]
      exact h
    · exact List.head?_eq_some_head _
    · exact List.getLast?_eq_some_getLast _

theorem fromBaggageValue_toBaggageValue (h : Consistent c)
    (hplain : ∀ did ∈ c.chain, ',' ∉ did.toList) :
    fromBaggageValue c.toBaggageValue c.maxDepth = c := by
  have hchain : split c.toBaggageValue ',' = c.chain := split_join h.ne_nil hplain
  have hread : Consistent (fromBaggageValue c.toBaggageValue c.maxDepth) := by
    rw [consistent_fromBaggageValue_iff]
    have hlength := length_split c.toBaggageValue ','
    have hdepth := h.depth_eq
    have hle := h.depth_le
    rw [hchain] at hlength
    omega
  exact hread.ext h hchain rfl

/-- Along every sequence of calls the fields say what the chain says, within the limit, and what
is written for the wire is read back. -/
theorem contexts_stay_consistent (hmax : 0 ≤ maxDepth) (h : Reachable (delegations maxDepth) c) :
    Consistent c ∧ c.maxDepth = maxDepth ∧
      ((∀ did ∈ c.chain, ',' ∉ did.toList) →
        fromBaggageValue c.toBaggageValue maxDepth = c) := by
  obtain ⟨hc, rfl⟩ := consistent_of_reachable hmax h
  exact ⟨hc, rfl, fromBaggageValue_toBaggageValue hc⟩

/-- An agent has handed on to another one, and this one may not. -/
def handedOn : DelegationContext := ⟨["did:a", "did:b"], "did:a", "did:b", 1, 1⟩

theorem a_call_that_is_handed_on_crosses_the_wire :
    Consistent handedOn ∧ handedOn.maxDepth = 1 ∧
      fromBaggageValue handedOn.toBaggageValue 1 = handedOn := by
  have hreached : Reachable (delegations 1) handedOn :=
    ⟨root "did:a" 1, ["did:b"], ⟨_, rfl⟩, .step rfl (.stay _)⟩
  obtain ⟨hc, hlimit, hback⟩ := contexts_stay_consistent (by decide) hreached
  exact ⟨hc, hlimit, hback (by decide)⟩

/-- A text that is read is written again as it was. -/
theorem toBaggageValue_fromBaggageValue (value : String) (maxDepth : Int) :
    (fromBaggageValue value maxDepth).toBaggageValue = value := join_split value ','

/-! ## Every chain within the limit -/

/-- Each context whose fields fit together is reached, one child after the other. -/
theorem reachable_of_consistent (h : Consistent c) : Reachable (delegations c.maxDepth) c := by
  obtain ⟨chain, issuerDid, currentDid, depth, maxDepth⟩ := c
  induction chain using List.reverseRecOn generalizing currentDid depth with
  | nil => exact (h.ne_nil rfl).elim
  | append_singleton chain childDid ih =>
    have hdepth := h.depth_eq
    have hle := h.depth_le
    simp only [List.length_append, List.length_singleton] at hdepth hle
    rcases List.eq_nil_or_concat' chain with rfl | ⟨before, last, hchain⟩
    · have hroot : Consistent (root childDid maxDepth) :=
        consistent_root childDid (by simp at hdepth; omega)
      exact reachable_init ⟨childDid, h.ext hroot rfl rfl⟩
    · have hne : chain ≠ [] := by simp [hchain]
      let parent : DelegationContext := ⟨chain, issuerDid, last, chain.length - 1, maxDepth⟩
      have hparent : Consistent parent := by
        refine ⟨rfl, ?_, ?_, ?_⟩
        · simp only [parent]
          omega
        · rw [← h.issuer, List.head?_append_of_ne_nil _ hne]
        · simp [parent, hchain]
      have hok : parent.delegateTo childDid =
          .ok ⟨chain ++ [childDid], issuerDid, childDid, chain.length, maxDepth⟩ := by
        refine delegateTo_ok_iff.mpr ⟨?_, rfl⟩
        simp only [parent]
        omega
      have hafter : parent.after childDid = ⟨chain ++ [childDid], issuerDid, currentDid, depth,
          maxDepth⟩ := by
        refine Consistent.ext (consistent_after hparent childDid) h ?_ ?_
        · rw [after, hok]
        · rw [after, hok]
      exact (ih last (chain.length - 1) hparent).step hafter.symm

theorem reachable_iff (hmax : 0 ≤ maxDepth) :
    Reachable (delegations maxDepth) c ↔ Consistent c ∧ c.maxDepth = maxDepth := by
  constructor
  · exact consistent_of_reachable hmax
  · rintro ⟨h, rfl⟩
    exact reachable_of_consistent h

/-- What is read is a context of some chain of calls where the text has no more commas than there
may be calls. -/
theorem reachable_fromBaggageValue_iff (value : String) (hmax : 0 ≤ maxDepth) :
    Reachable (delegations maxDepth) (fromBaggageValue value maxDepth) ↔
      value.toList.count ',' ≤ maxDepth := by
  rw [reachable_iff hmax, consistent_fromBaggageValue_iff]
  exact and_iff_left rfl

theorem four_dids_come_from_no_chain :
    ¬ Reachable (delegations 2) (fromBaggageValue "a,b,c,d" 2) := by
  rw [reachable_fromBaggageValue_iff "a,b,c,d" (by decide)]
  decide

/-- A longer one is read all the same, and delegates to nobody. -/
theorem delegateTo_fromBaggageValue_iff (value childDid : String) (maxDepth : Int) :
    (∃ d, (fromBaggageValue value maxDepth).delegateTo childDid = .ok d) ↔
      value.toList.count ',' < maxDepth := by
  have hdepth : (fromBaggageValue value maxDepth).depth = value.toList.count ',' := by
    simp [fromBaggageValue, length_split]
  simp only [delegateTo_ok_iff, exists_and_left, exists_eq, and_true, hdepth]
  rfl

/-! ## The DIDs of agents -/

/-- Of an agent's keys, the public ones. -/
structure AgentIdentity where
  edPub : Bytes
  xPub : Bytes
  natsUrl : String
  maxDelegationDepth : Int := 3

variable {V : Type}

namespace AgentIdentity

def did (F : Formats V) (a : AgentIdentity) : String :=
  createPeerDidNumalgo2 F.codec [a.xPub] [a.edPub]
    (some [("type", F.str "DIDCommMessaging"), ("serviceEndpoint", F.str a.natsUrl)])

def delegationContext (F : Formats V) (a : AgentIdentity) : DelegationContext :=
  root (a.did F) a.maxDelegationDepth

end AgentIdentity

/-- A letter that is in no part of a DID, and is no letter of its method, is not in the DID. -/
theorem not_mem_createPeerDid (C : Codec V) {c : Char} (hmethod : c ∉ didMethod.toList)
    (hmark : c ∉ ['.', 'V', 'z', 'S']) (hkey : ∀ b, c ∉ (C.b58encode b).toList)
    (hservice : ∀ s, c ∉ (C.encodeService s).toList) (encryptionKeys signingKeys : List Bytes)
    (service : Option (Service V)) :
    c ∉ (createPeerDidNumalgo2 C encryptionKeys signingKeys service).toList := by
  simp only [List.mem_cons, List.not_mem_nil, or_false, not_or] at hmark
  obtain ⟨hdot, hV, hz, hS⟩ := hmark
  have hparts : ∀ part ∈ didParts C encryptionKeys signingKeys service, c ∉ part := by
    intro part hpart
    unfold didParts at hpart
    simp only [List.mem_append, List.mem_map] at hpart
    rcases hpart with (⟨key, -, rfl⟩ | ⟨key, -, rfl⟩) | ⟨s, -, rfl⟩
    · simp [hV, hz, hkey]
    · simp [hV, hz, hkey]
    · simp [hS, hservice]
  unfold createPeerDidNumalgo2
  rw [String.toList_ofList, List.mem_append, List.mem_flatMap, not_or]
  refine ⟨hmethod, ?_⟩
  rintro ⟨part, hpart, hc⟩
  rcases List.mem_cons.mp hc with hc | hc
  · exact hdot hc
  · exact hparts part hpart hc

/-- The DID of an agent has no comma. -/
theorem plain_did {F : Formats V} (hb58 : ∀ b, F.b58encode b = String.ofList (base58.b58encode b))
    (a : AgentIdentity) : ',' ∉ (a.did F).toList := by
  refine not_mem_createPeerDid F.codec (by decide) (by decide) ?_ ?_ _ _ _
  · intro b hcomma
    have hletters := base58.b58encode_mem b ','
    change ',' ∈ (F.b58encode b).toList at hcomma
    rw [hb58, String.toList_ofList] at hcomma
    exact absurd (hletters hcomma) (by decide)
  · intro s hcomma
    obtain ⟨n, hn⟩ := Formats.exists_letter_of_mem hcomma
    exact base64.letter_ne_comma n hn

theorem mem_chain_after {did childDid : String} (h : did ∈ (c.after childDid).chain) :
    did ∈ c.chain ∨ did = childDid := by
  rcases after_cases c childDid with hsame | hd
  · rw [hsame] at h
    exact .inl h
  · obtain ⟨-, heq⟩ := delegateTo_ok_iff.mp hd
    rw [heq] at h
    simpa using h

/-- Contexts among agents cross the wire, whoever hands on to whom. -/
theorem identities_cross_the_wire {F : Formats V}
    (hb58 : ∀ b, F.b58encode b = String.ofList (base58.b58encode b)) (a : AgentIdentity)
    (hmax : 0 ≤ a.maxDelegationDepth) (others : List AgentIdentity) :
    fromBaggageValue ((others.map (·.did F)).foldl after (a.delegationContext F)).toBaggageValue
      a.maxDelegationDepth = (others.map (·.did F)).foldl after (a.delegationContext F) := by
  have hrun : ∀ (c : DelegationContext) (others : List AgentIdentity), Consistent c →
      (∀ did ∈ c.chain, ',' ∉ did.toList) →
      fromBaggageValue ((others.map (·.did F)).foldl after c).toBaggageValue c.maxDepth =
        (others.map (·.did F)).foldl after c := by
    intro c others
    induction others generalizing c with
    | nil => exact fun hc hplain => fromBaggageValue_toBaggageValue hc hplain
    | cons other others ih =>
      intro hc hplain
      rw [List.map_cons, List.foldl_cons, ← maxDepth_after c (other.did F)]
      refine ih _ (consistent_after hc _) fun did hdid => ?_
      rcases mem_chain_after hdid with hmem | rfl
      · exact hplain did hmem
      · exact plain_did hb58 other
  refine hrun (a.delegationContext F) others (consistent_root _ hmax) fun did hdid => ?_
  rw [List.mem_singleton.mp hdid]
  exact plain_did hb58 a

/-- Three agents whose keys are all alike but for a byte. -/
theorem three_agents_cross_the_wire :
    let agent : UInt8 → AgentIdentity := fun n =>
      { edPub := List.replicate 32 n, xPub := List.replicate 32 n, natsUrl := "nats://localhost:4222" }
    let root := (agent 1).delegationContext natsFormats
    let context := ([agent 2, agent 3].map (·.did natsFormats)).foldl after root
    fromBaggageValue context.toBaggageValue 3 = context :=
  identities_cross_the_wire (F := natsFormats) (fun _ => rfl) _ (by decide) _

end orchestra.delegation_contexts
