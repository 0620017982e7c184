import RankExchange.Proofs.Rounds

/-!
# Fresh groups

Nobody has left a fresh group and nothing waits in it, so what is asked of a
group at the start of a run holds of it.
-/

namespace RankExchange

def Endpoint.opened (rank size : Nat) (granted : Threading) : Endpoint where
  session := { phase := .active ⟨rank, size, granted⟩ }

namespace Group

variable {delivery : Delivery} {grants : List Threading}

theorem size_ofGrants : (ofGrants delivery grants).size = grants.length :=
  List.length_map _

theorem exists_grant_of_getElem? {rank : Nat} {member : Member}
    (h : (ofGrants delivery grants).members[rank]? = some member) :
    ∃ grant, grants[rank]? = some grant ∧ member = { grant } := by
  unfold ofGrants at h
  rw [List.getElem?_map] at h
  obtain ⟨grant, hgrant, heq⟩ := Option.map_eq_some_iff.1 h
  exact ⟨grant, hgrant, heq.symm⟩

theorem quiet_ofGrants (used : Tag → Prop) : (ofGrants delivery grants).Quiet used := by
  intro rank member hmember message hmessage
  obtain ⟨grant, _, rfl⟩ := exists_grant_of_getElem? hmember
  cases hmessage

theorem intact_ofGrants : (ofGrants delivery grants).Intact where
  present := by
    intro rank member hmember
    obtain ⟨grant, _, rfl⟩ := exists_grant_of_getElem? hmember
    rfl
  running := by
    intro rank member hmember
    obtain ⟨grant, _, rfl⟩ := exists_grant_of_getElem? hmember
    rfl
  expects := by
    right
    intro rank member hmember
    obtain ⟨grant, _, rfl⟩ := exists_grant_of_getElem? hmember
    rfl

theorem opened_ofGrants {granted : Threading} (h : ∀ grant ∈ grants, grant = granted) :
    (ofGrants delivery grants).Opened (fun rank => .opened rank grants.length granted) := by
  intro rank member hmember
  obtain ⟨grant, hgrant, rfl⟩ := exists_grant_of_getElem? hmember
  rw [size_ofGrants, h grant (List.mem_of_getElem? hgrant)]
  rfl

theorem threaded_ofGrants (h : ∀ grant ∈ grants, grant = .multiple) :
    (ofGrants delivery grants).Threaded := by
  intro _ rank member hmember
  obtain ⟨grant, hgrant, rfl⟩ := exists_grant_of_getElem? hmember
  exact h grant (List.mem_of_getElem? hgrant)

end Group

theorem reciprocal_others (size : Nat) : Reciprocal size (RankSet.others size) := by
  intro rank peer hrank hpeer
  obtain ⟨hsize, hne⟩ := RankSet.mem_others.1 hpeer
  exact ⟨hsize, RankSet.mem_others.2 ⟨hrank, hne.symm⟩⟩

end RankExchange
