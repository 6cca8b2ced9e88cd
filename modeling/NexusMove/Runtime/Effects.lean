import NexusMove.Runtime.Atomicity
import NexusMove.Runtime.Session

/-!
# The two forms of effects

An output carries its effects as a list of changes and as a map, and the two are
built side by side, by different code on every path: publishing, running code,
publishing by plan, and sessions. A chain may apply either form.

* `VmOutput.EffectsAgree` — both forms do the same to every store.
* `effects_agree` — they do, on every path.
-/

namespace NexusMove

/-- The map holds the last change of every location, and no other location. -/
def VmOutput.Matches (out : VmOutput) : Prop :=
  WriteMap.Represents out.writeSet (out.stateChanges.map StateChange.toWrite)

/-- The two forms of the effects have the same keys, and give the same store. -/
structure VmOutput.EffectsAgree (out : VmOutput) : Prop where
  stores : ∀ σ : Store, σ.applyChanges out.stateChanges = σ.applyWriteSet out.writeSet
  keys : ∀ a k, (∃ c ∈ out.stateChanges, c.account = a ∧ c.key = k) ↔ (a, k) ∈ out.writeSet

section Spec

variable {out : VmOutput}

theorem VmOutput.Matches.effectsAgree (h : out.Matches) : out.EffectsAgree where
  stores σ := h.applyAll_eq σ
  keys a k := by
    rw [h.mem_iff]
    constructor
    · rintro ⟨c, hc, rfl, rfl⟩
      exact ⟨c.toWrite, List.mem_map_of_mem hc, rfl⟩
    · rintro ⟨w, hw, hk⟩
      obtain ⟨c, hc, rfl⟩ := List.mem_map.mp hw
      exact ⟨c, hc, congrArg Prod.fst hk, congrArg Prod.snd hk⟩

theorem matches_withoutEffects (status : VmStatus) (gasUsed : UInt64) :
    (VmOutput.withoutEffects status gasUsed).Matches :=
  WriteMap.represents_empty

/-! ## Publishing -/

/-- One round of the loop pushes and inserts the same four entries. -/
theorem represents_moduleWriteSet (v : Vendor) {writeSet : WriteSet} {changes : List StateChange}
    (h : WriteMap.Represents writeSet (changes.map StateChange.toWrite)) (p : PublishedModule) :
    WriteMap.Represents (moduleWriteSet v p.bytes p.compiled p.metadataBytes writeSet)
      ((changes ++ moduleChanges v p.bytes p.compiled p.metadataBytes).map StateChange.toWrite) := by
  rw [List.map_append]
  exact h.foldl_insert ((moduleChanges v p.bytes p.compiled p.metadataBytes).map StateChange.toWrite)

theorem represents_foldl_moduleWriteSet (v : Vendor) {writeSet : WriteSet}
    {changes : List StateChange}
    (h : WriteMap.Represents writeSet (changes.map StateChange.toWrite))
    (ps : List PublishedModule) :
    WriteMap.Represents
      (ps.foldl (fun ws p => moduleWriteSet v p.bytes p.compiled p.metadataBytes ws) writeSet)
      ((changes ++ bundleChanges v ps).map StateChange.toWrite) := by
  induction ps generalizing writeSet changes with
  | nil => simpa [bundleChanges] using h
  | cons p ps ih =>
    have hrest := ih (represents_moduleWriteSet v h p)
    rw [List.append_assoc] at hrest
    exact hrest

theorem matches_publishSuccess (v : Vendor) (schedule : GasSchedule) (request : ModulePublish)
    (ps : List PublishedModule) : (publishSuccess v schedule request ps).Matches := by
  have hempty : WriteMap.Represents (∅ : WriteSet) (([] : List StateChange).map StateChange.toWrite) :=
    WriteMap.represents_empty
  exact represents_foldl_moduleWriteSet v hempty ps

theorem publishModules_matches {v : Vendor} {schedule : GasSchedule} {state : NexusStateView}
    {request : ModulePublish} (h : publishModules v schedule state request = .ok out) :
    out.Matches := by
  rcases publishModules_ok v schedule state h with ⟨-, hquiet⟩ | ⟨ps, -, rfl⟩
  · rw [hquiet]
    exact matches_withoutEffects _ _
  · exact matches_publishSuccess v schedule request ps

/-! ## Running code -/

/-- Each arm of `changeset_to_nexus` inserts into the map what it pushes onto the list. -/
theorem represents_pushOp (addr : AccountAddress) {effects : List StateChange × WriteSet}
    (h : WriteMap.Represents effects.2 (effects.1.map StateChange.toWrite))
    (resource : StructTag × ResourceOp) :
    WriteMap.Represents (pushOp addr effects resource).2
      ((pushOp addr effects resource).1.map StateChange.toWrite) := by
  obtain ⟨structTag, op⟩ := resource
  cases op with
  | new bytes =>
    rw [pushOp, List.map_append]
    exact h.insert (addr, resourceKey structTag) (some bytes)
  | modify bytes =>
    rw [pushOp, List.map_append]
    exact h.insert (addr, resourceKey structTag) (some bytes)
  | delete =>
    rw [pushOp, List.map_append]
    exact h.insert (addr, resourceKey structTag) none

theorem represents_foldl_pushOp (addr : AccountAddress)
    (resources : List (StructTag × ResourceOp)) {effects : List StateChange × WriteSet}
    (h : WriteMap.Represents effects.2 (effects.1.map StateChange.toWrite)) :
    WriteMap.Represents (resources.foldl (pushOp addr) effects).2
      ((resources.foldl (pushOp addr) effects).1.map StateChange.toWrite) := by
  induction resources generalizing effects with
  | nil => exact h
  | cons resource resources ih => exact ih (represents_pushOp addr h resource)

/-- **Change sets.** The map of a change set holds the last change of every location the list
changes: induction over the accounts, and over the resources of each. -/
theorem represents_changesetToNexus (changeSet : ChangeSet) :
    WriteMap.Represents (changesetToNexus changeSet).2
      ((changesetToNexus changeSet).1.map StateChange.toWrite) := by
  have hloop : ∀ effects : List StateChange × WriteSet,
      WriteMap.Represents effects.2 (effects.1.map StateChange.toWrite) →
      WriteMap.Represents (changeSet.foldl pushAccount effects).2
        ((changeSet.foldl pushAccount effects).1.map StateChange.toWrite) := by
    induction changeSet with
    | nil => exact fun _ h => h
    | cons account changeSet ih =>
      exact fun effects h => ih _ (represents_foldl_pushOp account.1 account.2 h)
  exact hloop ([], ∅) WriteMap.represents_empty

theorem executeInvocation_matches (inv : Invocation) {v : Vendor} {schedule : GasSchedule}
    {state : NexusStateView} {interpreter : Interpreter}
    (h : executeInvocation v schedule state interpreter inv = .ok out) : out.Matches := by
  rcases executeInvocation_ok h with ⟨-, hquiet⟩ | ⟨start, effects, -, -, -, hchanges, hwrites, -⟩
  · rw [hquiet]
    exact matches_withoutEffects _ _
  · rw [VmOutput.Matches, hchanges, hwrites]
    exact represents_changesetToNexus _

/-! ## Publishing by plan -/

theorem represents_foldl_pushWrite (account : AccountAddress) (writes : List (Bytes × Bytes))
    {effects : WriteSet × List StateChange}
    (h : WriteMap.Represents effects.1 (effects.2.map StateChange.toWrite)) :
    WriteMap.Represents (writes.foldl (pushWrite account) effects).1
      ((writes.foldl (pushWrite account) effects).2.map StateChange.toWrite) := by
  induction writes generalizing effects with
  | nil => exact h
  | cons write writes ih =>
    have hnext : WriteMap.Represents (pushWrite account effects write).1
        ((pushWrite account effects write).2.map StateChange.toWrite) := by
      rw [pushWrite, List.map_append]
      exact h.insert (account, write.1) (some write.2)
    exact ih hnext

theorem publishVerifiedModules_matches {blake3 : Bytes → HashValue} {state : NexusStateView}
    {p : PlannedPublish} {outcome : PublishOutcome} (h : p.run blake3 state = .ok outcome) :
    outcome.vmOutput.Matches := by
  obtain ⟨-, ⟨-, heq⟩ | ⟨-, -, heq⟩ | ⟨-, -, heq⟩⟩ := publishVerifiedModules_cases h
  · rw [heq]
    exact matches_withoutEffects _ _
  · rw [heq]
    exact matches_withoutEffects _ _
  · rw [heq]
    exact represents_foldl_pushWrite _ _ WriteMap.represents_empty

/-! ## Sessions -/

theorem commit_matches (s : ExecuteSession) (status : VmStatus) : (s.commit status).Matches := by
  have hkeys : ∀ l ∈ s.resources.overlay, l ∈ s.resources.overlay.keys.sort LocationLE := by
    intro l hl
    rw [Finset.mem_sort, Finmap.mem_keys]
    exact hl
  have h := WriteMap.represents_entriesAt hkeys
  -- the changes are the entries, and turning them back into writes gives the entries again
  show WriteMap.Represents s.resources.overlay (s.resources.intoChanges.2.map StateChange.toWrite)
  rw [ResourceStore.intoChanges, List.map_map]
  simpa [Function.comp_def, StateChange.toWrite] using h

end Spec

/-- **The two forms of effects agree.** Whatever the state that was read, the changes of an output
and its write set have the same keys, and folding the changes over any store gives what the write
set gives: for publishes, calls and scripts of the real backend, for publishes by plan, and for
sessions that are committed or aborted. -/
theorem effects_agree (v : Vendor) :
    (∀ config interpreter (t : Transaction) state out,
      t.run (realMoveVm v config interpreter) state = .ok out → out.EffectsAgree)
    ∧ (∀ (p : PlannedPublish) state outcome,
      p.run v.blake3 state = .ok outcome → outcome.vmOutput.EffectsAgree)
    ∧ ∀ (s : ExecuteSession) status,
      (s.commit status).EffectsAgree ∧ (s.abort status).EffectsAgree := by
  refine ⟨?_, ?_, ?_⟩
  · intro config interpreter t state out hrun
    cases t with
    | publish request => exact (publishModules_matches hrun).effectsAgree
    | call request => exact (executeInvocation_matches (.call request) hrun).effectsAgree
    | script request => exact (executeInvocation_matches (.script request) hrun).effectsAgree
  · intro p state outcome hrun
    exact (publishVerifiedModules_matches hrun).effectsAgree
  · intro s status
    exact ⟨(commit_matches s status).effectsAgree, (matches_withoutEffects _ _).effectsAgree⟩

end NexusMove
