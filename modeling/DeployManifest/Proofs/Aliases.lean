import DeployManifest.Proofs.DomainNames
import DeployManifest.Proofs.ListedSecrets
import DeployManifest.Proofs.Places
import DeployManifest.Proofs.UpdatePropagation

/-!
# Aliases that are accepted

The aliases of a manifest are accepted just if each job of the two addons that configure aliases has a list of them
that can be read, or none, and all their domains are as they should be (`HasValidAliases`).  Such a domain is a domain
name with a wildcard in front of it and a dot behind it that may be missing (`IsDomain`).  A regular expression tells
the same domains (`isDomain_iff_matches`).

Main statement: `aliases_eq_ok_iff`.  What is accepted, what is given then, and that every manifest that comes out of
a resolution has valid aliases, since what is done behind their check leaves the addons alone.

- `IsDomain`, `IsName`: domains, and the names behind wildcards.
- `HasValidAliases`, `listed`: what is accepted, and what is given then.
- `hasValidAliases_of_finish`: the stages behind the check.
-/

namespace DeployManifest.Dns

open Yaml (View bytes)

variable {m : Manifest} {addon : Addon} {job : Job} {found : List Alias} {text name label : List Char}
  {domain : String}

/-! ## Domains of aliases -/

/-- Whether a text is a domain name with a dot behind it or without one. -/
def IsName (text : List Char) : Prop :=
  ∃ name, IsDomainName Char.isAlphanum name ∧ (text = name ∨ text = name ++ ['.'])

/-- Whether a name is what a text is without one wildcard in front. -/
def IsBehindWildcard (text name : List Char) : Prop :=
  text = '_' :: '.' :: name ∨ ¬ ['_', '.'] <+: text ∧ text = name

/-- Whether a text can be the domain of an alias: without a wildcard in front it is a name that is not too long. -/
def IsDomain (domain : String) : Prop :=
  ∃ name, IsBehindWildcard domain.toList name ∧ bytes name ≤ maxSize ∧ IsName name

/-- The test for labels is right. -/
theorem isLabel_eq_true_iff : isLabel label = true ↔ IsLabel Char.isAlphanum label := by
  unfold isLabel
  simp only [Bool.and_eq_true, Bool.not_eq_true', List.isEmpty_eq_false_iff, List.all_eq_true, Bool.or_eq_true,
    decide_eq_true_eq]
  constructor
  · rintro ⟨⟨⟨filled, chars⟩, no_dash⟩, no_dash'⟩
    -- the ends of a label are characters of it, but no dashes
    have head := List.head?_eq_some_head filled
    have last := List.getLast?_eq_some_getLast filled
    refine ⟨chars, ⟨_, head, ?_⟩, ⟨_, last, ?_⟩⟩
    · exact (chars _ (List.head_mem filled)).resolve_right fun dash => no_dash (dash ▸ head)
    · exact (chars _ (List.getLast_mem filled)).resolve_right fun dash => no_dash' (dash ▸ last)
  · intro is_label
    have ⟨chars, ⟨c, head, word⟩, ⟨d, last, word'⟩⟩ := is_label
    refine ⟨⟨⟨is_label.ne_nil, chars⟩, fun dash => ?_⟩, fun dash => ?_⟩
    · obtain rfl := Option.some.inj (head.symm.trans dash)
      exact absurd word (by decide)
    · obtain rfl := Option.some.inj (last.symm.trans dash)
      exact absurd word' (by decide)

theorem dropDot_append_dot (name : List Char) : dropDot (name ++ ['.']) = name := by
  unfold dropDot
  rw [if_pos (List.getLast?_concat ..), List.dropLast_concat]

/-- A text is what is left of it, perhaps with a dot. -/
theorem eq_dropDot_or (text : List Char) : text = dropDot text ∨ text = dropDot text ++ ['.'] := by
  unfold dropDot
  split
  · next dot =>
    obtain ⟨front, rfl⟩ := List.getLast?_eq_some_iff.mp dot
    exact .inr (by rw [List.dropLast_concat])
  · exact .inl rfl

/-- A text that ends in a letter or digit has no dot to drop. -/
theorem dropDot_of_endsIn (ends : EndsIn Char.isAlphanum text) : dropDot text = text := by
  obtain ⟨c, last, word⟩ := ends
  unfold dropDot
  rw [if_neg]
  intro dot
  obtain rfl := Option.some.inj (last.symm.trans dot)
  exact absurd word (by decide)

/-- The test for names is right. -/
theorem isName_eq_true_iff : isName text = true ↔ IsName text := by
  have apart : Char.isAlphanum '.' = false := by decide
  unfold isName
  simp only [List.all_eq_true, isLabel_eq_true_iff, ← isDomainName_iff_splitAt apart]
  constructor
  · exact fun is_name => ⟨_, is_name, eq_dropDot_or text⟩
  · rintro ⟨name, is_name, rfl | rfl⟩
    · rwa [dropDot_of_endsIn (is_name.endsIn apart)]
    · rwa [dropDot_append_dot]

/-- What stands behind the wildcard is what is left when it is dropped. -/
theorem isBehindWildcard_iff : IsBehindWildcard text name ↔ dropWildcard text = name := by
  unfold IsBehindWildcard dropWildcard
  cases stripped : Text.stripStart? ['_', '.'] text with
  | none =>
    -- a text without a wildcard is left as it is
    have no_wildcard : ∀ rest, text ≠ '_' :: '.' :: rest := by
      intro rest same
      rw [Text.stripStart?_eq_some_iff.mpr same] at stripped
      nomatch stripped
    constructor
    · rintro (wild | ⟨-, same⟩)
      · exact absurd wild (no_wildcard name)
      · exact same
    · exact fun same => .inr ⟨fun ⟨rest, wild⟩ => no_wildcard rest wild.symm, same⟩
  | some rest =>
    obtain rfl := Text.stripStart?_eq_some_iff.mp stripped
    constructor
    · rintro (wild | ⟨no_wildcard, -⟩)
      · exact List.append_cancel_left wild
      · exact absurd (List.prefix_append _ rest) no_wildcard
    · rintro rfl
      exact .inl rfl

theorem isDomain_eq_true_iff : isDomain domain = true ↔ IsDomain domain := by
  unfold isDomain IsDomain
  simp only [isBehindWildcard_iff, exists_eq_left', Bool.and_eq_true, decide_eq_true_eq, isName_eq_true_iff, bytes]

/-- The domains of aliases are told by their length and by a pattern. -/
theorem isDomain_iff_matches :
    IsDomain domain ↔
      bytes (dropWildcard domain.toList) ≤ maxSize ∧ dropWildcard domain.toList ∈ namePattern.matches' := by
  unfold IsDomain
  simp only [isBehindWildcard_iff, exists_eq_left', mem_namePattern_iff, IsName]

/-! ## Aliases of jobs -/

/-- Whether the aliases that a job configures, if it does, can be read and have valid domains. -/
def HasValidAliasesIn (job : Job) : Prop :=
  ∀ value, job.properties.properties.get? "aliases" = some value →
    ∃ found, View.list? Alias.ofView? (.tree value) = some found ∧ ∀ a ∈ found, IsDomain a.domain

/-- Whether all jobs of the addons that configure aliases have valid ones. -/
def HasValidAliases (m : Manifest) : Prop :=
  ∀ addon ∈ m.addons, addon.name ∈ addonNames → ∀ job ∈ addon.jobs, HasValidAliasesIn job

/-- The aliases that a job lists, as far as they can be read. -/
def listedIn (job : Job) : List Alias :=
  ((job.properties.properties.get? "aliases").bind fun value => View.list? Alias.ofView? (.tree value)).getD []

/-- The aliases that are listed in a manifest, addon by addon and job by job. -/
def listed (m : Manifest) : List Alias :=
  m.addons.flatMap fun addon => if addon.name ∈ addonNames then addon.jobs.flatMap listedIn else []

theorem firstInvalid?_eq_none_iff : firstInvalid? found = none ↔ ∀ a ∈ found, IsDomain a.domain := by
  unfold firstInvalid?
  simp [List.find?_eq_none, isDomain_eq_true_iff]

/-- The aliases of a job are accepted just if they are valid, and then they are all given. -/
theorem jobAliases_eq_ok_iff :
    jobAliases addon job = .ok found ↔ HasValidAliasesIn job ∧ found = listedIn job := by
  unfold jobAliases listedIn HasValidAliasesIn
  cases job.properties.properties.get? "aliases" with
  | none => exact ⟨fun made => ⟨nofun, (Except.ok.inj made).symm⟩, fun ⟨_, same⟩ => same ▸ rfl⟩
  | some value =>
    simp only [Option.some.injEq, forall_eq', Option.bind_some]
    cases View.list? Alias.ofView? (.tree value) with
    | none => exact ⟨nofun, fun ⟨⟨_, read, _⟩, _⟩ => nomatch read⟩
    | some all =>
      simp only [Option.some.injEq, exists_eq_left', ← firstInvalid?_eq_none_iff, Option.getD_some]
      cases firstInvalid? all with
      | none => exact ⟨fun made => ⟨rfl, (Except.ok.inj made).symm⟩, fun ⟨_, same⟩ => same ▸ rfl⟩
      | some invalid => exact ⟨nofun, fun ⟨valid, _⟩ => nomatch valid⟩

/-! ## Aliases of manifests -/

/-- The jobs that are asked are those of the two addons. -/
theorem mem_jobs_iff : (addon, job) ∈ jobs m ↔ addon ∈ m.addons ∧ addon.name ∈ addonNames ∧ job ∈ addon.jobs := by
  unfold jobs
  simp only [List.mem_flatMap, List.mem_filter, List.mem_map, List.contains_iff_mem, Prod.mk.injEq]
  constructor
  · rintro ⟨_, ⟨mem, named⟩, _, job_mem, rfl, rfl⟩
    exact ⟨mem, named, job_mem⟩
  · rintro ⟨mem, named, job_mem⟩
    exact ⟨addon, ⟨mem, named⟩, job, job_mem, rfl, rfl⟩

/-- The aliases of a manifest are valid just if those of all these jobs are. -/
theorem hasValidAliases_iff_forall_jobs : HasValidAliases m ↔ ∀ p ∈ jobs m, HasValidAliasesIn p.2 := by
  constructor
  · rintro valid ⟨addon, job⟩ mem
    obtain ⟨addon_mem, named, job_mem⟩ := mem_jobs_iff.mp mem
    exact valid addon addon_mem named job job_mem
  · intro valid addon addon_mem named job job_mem
    exact valid (addon, job) (mem_jobs_iff.mpr ⟨addon_mem, named, job_mem⟩)

/-- The aliases of a manifest are those of these jobs, one behind the other. -/
theorem listed_eq_flatMap_jobs (m : Manifest) : listed m = (jobs m).flatMap fun p => listedIn p.2 := by
  unfold listed jobs
  induction m.addons with
  | nil => rfl
  | cons addon rest ih =>
    rw [List.flatMap_cons, ih, List.filter_cons]
    by_cases named : addon.name ∈ addonNames
    · rw [if_pos named, if_pos (List.contains_iff_mem.mpr named), List.flatMap_cons, List.flatMap_append,
        List.flatMap_map]
    · rw [if_neg named, if_neg (fun contains => named (List.contains_iff_mem.mp contains)), List.nil_append]

/-- The jobs are read one after the other, and each of them gives the aliases that it lists. -/
theorem mapM_jobAliases_eq_ok_iff {founds : List (List Alias)} :
    ((jobs m).mapM fun (addon, job) => jobAliases addon job) = .ok founds ↔
      HasValidAliases m ∧ founds = (jobs m).map fun p => listedIn p.2 := by
  have step : (fun (p : Addon × Job) found => jobAliases p.1 p.2 = .ok found) =
      fun p found => HasValidAliasesIn p.2 ∧ listedIn p.2 = found := by
    funext p found
    rw [jobAliases_eq_ok_iff, eq_comm (a := found)]
  rw [mapM_eq_ok_iff, hasValidAliases_iff_forall_jobs, eq_comm, ← List.forall₂_eq_eq_eq, List.forall₂_map_left_iff,
    ← List.forall₂_and_left, ← step]

/-- Aliases are accepted just if they are valid, and given in order. -/
theorem aliases_eq_ok : aliases m = .ok found ↔ HasValidAliases m ∧ found = listed m := by
  unfold aliases
  simp only [map_eq_ok, mapM_jobAliases_eq_ok_iff, listed_eq_flatMap_jobs, List.flatMap_def]
  constructor
  · rintro ⟨_, ⟨valid, rfl⟩, rfl⟩
    exact ⟨valid, rfl⟩
  · rintro ⟨valid, rfl⟩
    exact ⟨_, ⟨valid, rfl⟩, rfl⟩

/-! ## Resolved manifests -/

theorem addons_propagateUpdate (m : Manifest) : m.propagateUpdate.addons = m.addons := by
  rw [Manifest.propagateUpdate_eq]

/-- What a resolution gives was checked, but for the update block, which the addons have no part in. -/
theorem hasValidAliases_of_finish {r : Resolver} {space : String} {d : Deployment} {loaded : Manifest}
    (finished : r.finish space d loaded = .ok m) : HasValidAliases m := by
  unfold Resolver.finish at finished
  obtain ⟨labelled, -, finished⟩ := bind_eq_ok.mp finished
  obtain ⟨filled, -, finished⟩ := bind_eq_ok.mp finished
  obtain ⟨injected, -, finished⟩ := bind_eq_ok.mp finished
  obtain ⟨complete, -, finished⟩ := bind_eq_ok.mp finished
  obtain ⟨found, checked, finished⟩ := bind_eq_ok.mp finished
  obtain rfl := Except.ok.inj finished
  obtain ⟨valid, -⟩ := aliases_eq_ok.mp (mapError_eq_ok.mp checked)
  unfold HasValidAliases
  rwa [addons_propagateUpdate]

/-- A manifest that comes out of a resolution has valid aliases. -/
theorem hasValidAliases_of_resolve {r : Resolver} {d : Deployment} {space : String}
    (resolved : r.resolve d space = .ok m) : HasValidAliases m := by
  unfold Resolver.resolve at resolved
  split at resolved
  · obtain ⟨loaded, -, finished⟩ := bind_eq_ok.mp (Resolver.blame_eq_ok.mp resolved)
    exact hasValidAliases_of_finish finished
  · obtain ⟨loaded, -, finished⟩ := bind_eq_ok.mp (Resolver.blame_eq_ok.mp resolved)
    exact hasValidAliases_of_finish finished

/-- The aliases of a manifest are accepted just if they are valid, and are then given in the order of addons, jobs and
lists; a pattern and a length tell the valid ones; and a resolved manifest has no others. -/
theorem aliases_eq_ok_iff (m : Manifest) :
    (∀ found, aliases m = .ok found ↔ HasValidAliases m ∧ found = listed m) ∧
      (∀ domain, IsDomain domain ↔
        bytes (dropWildcard domain.toList) ≤ maxSize ∧ dropWildcard domain.toList ∈ namePattern.matches') ∧
      ∀ r d space, Resolver.resolve r d space = .ok m → HasValidAliases m :=
  ⟨fun _ => aliases_eq_ok, fun _ => isDomain_iff_matches, fun _ _ _ => hasValidAliases_of_resolve⟩

/-- A job with two aliases: one with a wildcard in front and a dot behind, and one of a single label. -/
def dnsJob : Job :=
  ⟨"dns", "dns", .empty, .empty, ⟨.empty, .single "aliases" (.seq [
    .map [(.string "domain", .string "_.nats.internal.")], .map [(.string "domain", .string "A-1")]])⟩⟩

/-- A manifest with two aliases, one behind a wildcard and one with a dot at its end. -/
def dnsManifest : Manifest :=
  { Resolver.listingManifest [] dnsJob with addons := [⟨"bosh-dns", [dnsJob], none, none⟩] }

/-- These aliases are accepted, and the manifest is resolved. -/
theorem aliases_eq_ok_iff_dns :
    (HasValidAliases dnsManifest ∧ aliases dnsManifest = .ok [⟨"_.nats.internal.", []⟩, ⟨"A-1", []⟩]) ∧
      (bytes (dropWildcard "_.nats.internal.".toList) ≤ maxSize ∧
        dropWildcard "_.nats.internal.".toList ∈ namePattern.matches') ∧
      ∃ m, Resolver.resolve (Resolver.listingResolver "\x7b\x7d") Resolver.listingDeployment "cf" = .ok m ∧
        HasValidAliases m := by
  obtain ⟨accepted, domains, -⟩ := aliases_eq_ok_iff dnsManifest
  have given : aliases dnsManifest = .ok [⟨"_.nats.internal.", []⟩, ⟨"A-1", []⟩] := rfl
  have valid := ((accepted _).mp given).1
  have domain : IsDomain "_.nats.internal." := isDomain_eq_true_iff.mp (by decide)
  obtain ⟨m, resolved⟩ := exists_eq_ok_of_isOk (x :=
    Resolver.resolve (Resolver.listingResolver "\x7b\x7d") Resolver.listingDeployment "cf") (by decide +kernel)
  exact ⟨⟨valid, given⟩, (domains _).mp domain, m, resolved, (aliases_eq_ok_iff m).2.2 _ _ _ resolved⟩

end DeployManifest.Dns
