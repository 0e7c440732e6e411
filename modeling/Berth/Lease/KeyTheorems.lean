/-
Berth.Lease.KeyTheorems — accepted keys and their stored names.

A key is one object of the Kubernetes store, named `<namespace>.<name>`.
The namespace of an accepted key is a DNS label and has no dot, so the
first dot of the stored name ends it: names determine keys, and the name
is a DNS subdomain again, one label longer than the key's own.
-/
import Berth.Lease.K8sStore
import Mathlib.Data.List.TakeWhile

namespace Berth.Lease

variable {key key' : Key}

/-- What `validateKey` has found of a key it accepts. -/
theorem validateKey_ok (h : validateKey key = .ok ()) :
    isDNS1123Label key.ns = [] ∧ isDNS1123Subdomain key.name = [] ∧
      key.ns.utf8ByteSize + 1 + key.name.utf8ByteSize ≤ maxEncodedKeyLength := by
  unfold validateKey at h
  split at h
  · cases h
  rename_i hns
  split at h
  · cases h
  rename_i hname
  dsimp only at h
  split at h
  · cases h
  · next hlen => exact ⟨hns, hname, Nat.not_lt.mp hlen⟩

theorem isDNS1123Label_nil {s : String} (h : isDNS1123Label s = []) :
    dns1123LabelMatch s.toList = true := by
  have hmatch := (List.append_eq_nil_iff.mp h).2
  by_contra hno
  rw [if_neg hno] at hmatch
  split at hmatch <;> cases hmatch

theorem isDNS1123Subdomain_nil_iff {s : String} :
    isDNS1123Subdomain s = [] ↔ s.utf8ByteSize ≤ 253 ∧ dns1123SubdomainMatch s.toList = true := by
  by_cases hlen : s.utf8ByteSize ≤ 253 <;> by_cases hm : dns1123SubdomainMatch s.toList = true <;>
    simp [isDNS1123Subdomain, hlen, hm]

/-- A label has no dot. -/
theorem dot_not_mem_label {cs : List Char} (h : dns1123LabelMatch cs = true) : '.' ∉ cs := by
  intro hdot
  simp only [dns1123LabelMatch, Bool.and_eq_true, List.all_eq_true] at h
  have := h.1.1 '.' hdot
  exact absurd this (by decide)

theorem toList_k8sLeaseName : (k8sLeaseName key).toList = key.ns.toList ++ '.' :: key.name.toList := by
  rw [k8sLeaseName, String.toList_append, String.toList_append]
  simp

/-- Before the first dot stands the namespace. -/
theorem takeWhile_k8sLeaseName (h : '.' ∉ key.ns.toList) :
    (k8sLeaseName key).toList.takeWhile (· != '.') = key.ns.toList := by
  have hall : ∀ c ∈ key.ns.toList, (c != '.') = true := by
    intro c hc
    have hne : c ≠ '.' := fun heq => h (heq ▸ hc)
    simpa using hne
  rw [toList_k8sLeaseName, List.takeWhile_append_of_pos hall]
  simp

theorem k8sLeaseName_inj (h : '.' ∉ key.ns.toList) (h' : '.' ∉ key'.ns.toList)
    (heq : k8sLeaseName key = k8sLeaseName key') : key = key' := by
  have hns : key.ns.toList = key'.ns.toList := by
    rw [← takeWhile_k8sLeaseName h, ← takeWhile_k8sLeaseName h', heq]
  have hname : key.name.toList = key'.name.toList := by
    have hlist : key.ns.toList ++ '.' :: key.name.toList =
        key'.ns.toList ++ '.' :: key'.name.toList := by
      rw [← toList_k8sLeaseName, ← toList_k8sLeaseName, heq]
    rw [hns] at hlist
    exact (List.cons.inj (List.append_cancel_left hlist)).2
  cases key
  cases key'
  rw [String.toList_inj] at hns hname
  simp_all

/-- The labels of a stored name are the namespace and those of the name. -/
theorem splitOn_k8sLeaseName (h : '.' ∉ key.ns.toList) :
    (k8sLeaseName key).toList.splitOn '.' = key.ns.toList :: key.name.toList.splitOn '.' := by
  have hno : ∀ c ∈ key.ns.toList, (c == '.') = false := by
    intro c hc
    rw [beq_eq_false_iff_ne]
    exact fun heq => h (heq ▸ hc)
  rw [toList_k8sLeaseName, List.splitOn, List.splitOnP_append_cons_of_forall_mem hno '.' (by decide)]
  rfl

theorem utf8ByteSize_k8sLeaseName :
    (k8sLeaseName key).utf8ByteSize = key.ns.utf8ByteSize + 1 + key.name.utf8ByteSize := by
  rw [k8sLeaseName, String.utf8ByteSize_append, String.utf8ByteSize_append]
  rfl

theorem utf8ByteSize_k8sLeaseName_le (h : validateKey key = .ok ()) :
    (k8sLeaseName key).utf8ByteSize ≤ 253 := by
  rw [utf8ByteSize_k8sLeaseName]
  exact (validateKey_ok h).2.2

/-- The name of an accepted key is a subdomain, one label longer than the
key's own name. -/
theorem isDNS1123Subdomain_k8sLeaseName (h : validateKey key = .ok ()) :
    isDNS1123Subdomain (k8sLeaseName key) = [] := by
  obtain ⟨hns, hname, -⟩ := validateKey_ok h
  have hlabel := isDNS1123Label_nil hns
  rw [isDNS1123Subdomain_nil_iff, dns1123SubdomainMatch,
    splitOn_k8sLeaseName (dot_not_mem_label hlabel), List.all_cons, hlabel, Bool.true_and]
  exact ⟨utf8ByteSize_k8sLeaseName_le h, (isDNS1123Subdomain_nil_iff.mp hname).2⟩

theorem dot_not_mem_ns (h : validateKey key = .ok ()) : '.' ∉ key.ns.toList :=
  dot_not_mem_label (isDNS1123Label_nil (validateKey_ok h).1)

/-- Accepted keys have their objects to themselves, and names the API
server takes. -/
theorem stored_names_apart (key key' : Key) (h : validateKey key = .ok ())
    (h' : validateKey key' = .ok ()) :
    (k8sLeaseName key = k8sLeaseName key' → key = key') ∧
      isDNS1123Subdomain (k8sLeaseName key) = [] ∧ (k8sLeaseName key).utf8ByteSize ≤ 253 := by
  refine ⟨fun heq => ?_, isDNS1123Subdomain_k8sLeaseName h, utf8ByteSize_k8sLeaseName_le h⟩
  exact k8sLeaseName_inj (dot_not_mem_ns h) (dot_not_mem_ns h') heq

theorem stored_names_apart_dotted :
    k8sLeaseName ⟨"a", "b.c"⟩ ≠ k8sLeaseName ⟨"a", "b-c"⟩ ∧
      isDNS1123Subdomain (k8sLeaseName ⟨"a", "b.c"⟩) = [] := by
  have h := stored_names_apart ⟨"a", "b.c"⟩ ⟨"a", "b-c"⟩ (by decide) (by decide)
  exact ⟨fun heq => absurd (h.1 heq) (by decide), h.2.1⟩

end Berth.Lease
