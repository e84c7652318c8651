import Reanalysis.Proofs.Cache.Slots

/-!
# What engines have left

The numbers of the slots that hold a state and did not exist before, in ascending order.
-/

namespace Reanalysis

namespace CacheStore

variable {s : CacheStore} {root : Place} {fs : Files} {n : Nat}

def numberBound : Nat := 0x100000000

theorem mem_insertNumber {m : Nat} {ns : List Nat} : m ∈ insertNumber n ns ↔ m = n ∨ m ∈ ns := by
  induction ns with
  | nil => rw [insertNumber, List.mem_singleton, or_iff_left List.not_mem_nil]
  | cons k ns ih =>
    rw [insertNumber]
    split
    · exact List.mem_cons
    · split
      · rename_i hSame
        rw [hSame, List.mem_cons, ← or_assoc, or_self]
      · rw [List.mem_cons, List.mem_cons, ih, or_left_comm]

theorem mem_foldr_insertNumber {ns : List Nat} : n ∈ ns.foldr insertNumber [] ↔ n ∈ ns := by
  induction ns with
  | nil => exact Iff.rfl
  | cons m ns ih => rw [List.foldr_cons, mem_insertNumber, ih, List.mem_cons]

theorem pairwise_insertNumber {ns : List Nat} (h : ns.Pairwise (· < ·)) :
    (insertNumber n ns).Pairwise (· < ·) := by
  induction ns with
  | nil => exact List.pairwise_singleton _ _
  | cons m ns ih =>
    obtain ⟨hFirst, hRest⟩ := List.pairwise_cons.mp h
    rw [insertNumber]
    split
    · rename_i hBelow
      refine List.pairwise_cons.mpr ⟨List.forall_mem_cons.mpr ⟨hBelow, fun k hk => ?_⟩, h⟩
      exact Nat.lt_trans hBelow (hFirst k hk)
    · split
      · exact h
      · refine List.pairwise_cons.mpr ⟨fun k hk => ?_, ih hRest⟩
        rcases mem_insertNumber.mp hk with rfl | hk
        · omega
        · exact hFirst k hk

theorem pairwise_engineDirs : (s.engineDirs fs).Pairwise (· < ·) := by
  rw [engineDirs]
  exact List.foldrRecOn _ _ List.Pairwise.nil fun _ h _ _ => pairwise_insertNumber h

theorem lt_of_mem_engineDirs (h : n ∈ s.engineDirs fs) : n < numberBound := by
  rw [engineDirs, mem_foldr_insertNumber, List.mem_filterMap] at h
  obtain ⟨⟨name, node⟩, -, hNumber⟩ := h
  dsimp only at hNumber
  split at hNumber
  · exact Text.lt_of_boundedNat? hNumber
  · cases hNumber

theorem mem_children (h : s.Tidy root fs) (hSlot : fs.node? (s.slotPlace root n) = some .directory) :
    (s.slotName n, .directory) ∈ fs.children s.resultsDir := by
  have hNamed : Files.Named (s.slotPlace root n) :=
    Files.named_snoc root (plain_slotName h.label n)
  rw [Files.node?_of_named hNamed] at hSlot
  have hMem : (s.slotPlace root n, FileNode.directory) ∈ fs.names := by
    obtain ⟨front, behind, hNames, -⟩ := List.lookup_eq_some_iff.mp hSlot
    simp [hNames]
  rw [Files.children, h.found]
  refine List.mem_filterMap.mpr ⟨_, hMem, ?_⟩
  have hNotRoot : root ++ [s.slotName n] ≠ ["/"] := hNamed.2
  simp [slotPlace, hNotRoot]

theorem mem_engineDirs (h : s.Tidy root fs) (hBound : n < numberBound)
    (hSlot : fs.node? (s.slotPlace root n) = some .directory) : n ∈ s.engineDirs fs := by
  rw [engineDirs, mem_foldr_insertNumber]
  refine List.mem_filterMap.mpr ⟨_, mem_children h hSlot, ?_⟩
  have hLabel : s.label.toList.isPrefixOf (s.slotName n).toList = true := by
    rw [toList_slotName]
    exact List.isPrefixOf_iff_prefix.mpr (List.prefix_append _ _)
  have hDigits : (s.slotName n).toList.drop s.label.toList.length = Nat.toDigits 10 n := by
    rw [toList_slotName, List.drop_left]
  dsimp only
  rw [hLabel, hDigits]
  exact Text.boundedNat?_toDigits hBound

theorem mem_producedSince_iff (h : s.Tidy root fs) {before : List Nat} :
    n ∈ s.producedSince fs before ↔ n < numberBound ∧ n ∉ before ∧ s.Reaches n blobName ∧
      ∃ number, fs.node? (s.filePlace root n blobName) = some (.file number) := by
  rw [producedSince, List.mem_filter, Bool.and_eq_true, engineBlob, isFile_slot_iff h entryName_blob]
  constructor
  · rintro ⟨hMem, hNew, hReach, hFile⟩
    exact ⟨lt_of_mem_engineDirs hMem, by simpa using hNew, hReach, hFile⟩
  · rintro ⟨hBound, hNew, hReach, number, hFile⟩
    exact ⟨mem_engineDirs h hBound (h.slot_of_file hFile), by simpa using hNew, hReach, number, hFile⟩

theorem pairwise_producedSince {before : List Nat} :
    (s.producedSince fs before).Pairwise (· < ·) := pairwise_engineDirs.filter _

end CacheStore

end Reanalysis
