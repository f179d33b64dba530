import Verity.Analysis.ConnectorEmails

/-!
# Two readings of a host

The connector and the server cut a text down to a host and read the registrable domain off its
labels. The connector's port needs a digit, it drops `www.` before the dots, and it keeps the white
space around a host. With the emails, the two copies of the canonical forms agree on a text exactly
when its two hosts name the same.
-/

set_option autoImplicit false

namespace Verity.Analysis

open Verity.Foundation Verity.Model

variable {second last second' last' : String} {labels : List String} {s : String}

/-- The host that is left of a text without its scheme, its userinfo and its path. -/
def hostText (s : String) : String := withoutPath (withoutUserinfo (withoutScheme s))

/-- The host the server keeps of a text. -/
def serverHost (raw : String) : String :=
  trim (trimMatches '.' (withoutPort (hostText (toAsciiLowercase (trim raw)))))

/-- The host the connector keeps of a text. -/
def connectorHost (raw : String) : String :=
  Connector.withoutPort (hostText (Connector.lower (Connector.strip raw)))

/-- The labels of a host behind its `www.`; a host with a space in it has none. -/
def hostLabels (host : String) : List String :=
  if ' ' ∈ host.toList then []
  else (splitAtChar '.' ((stripStart "www." host).getD host)).filter (· ≠ "")

/-- Whether two lists of labels name the same domain: they have the same last two labels, and the
same third last below a suffix of two, or neither has two labels. -/
def NamesAlike (labels labels' : List String) : Prop :=
  match labels.reverse, labels'.reverse with
  | last :: second :: rest, last' :: second' :: rest' =>
    last = last' ∧ second = second' ∧
      (second ++ "." ++ last ∈ multiPartSuffixes → rest.head? = rest'.head?)
  | _ :: _ :: _, _ => False
  | _, _ :: _ :: _ => False
  | _, _ => True

theorem dotted_inj (hfresh : '.' ∉ second.toList) (hfresh' : '.' ∉ second'.toList)
    (h : second ++ "." ++ last = second' ++ "." ++ last') : second = second' ∧ last = last' := by
  have hlist : ∀ s s' : String, (s ++ "." ++ s').toList = s.toList ++ '.' :: s'.toList := by
    intro s s'
    rw [String.toList_append, String.toList_append, List.append_assoc]
    rfl
  have hlists := congrArg String.toList h
  rw [hlist, hlist] at hlists
  obtain ⟨hsecond, hlast⟩ := append_separator_inj hfresh hfresh' hlists
  exact ⟨String.toList_inj.mp hsecond, String.toList_inj.mp hlast⟩

/-- A name of three labels is none of two. -/
theorem dotted_ne {third : String} (hthird : '.' ∉ third.toList) (hsecond : '.' ∉ second'.toList)
    (hlast : '.' ∉ last'.toList) :
    third ++ "." ++ (second ++ "." ++ last) ≠ second' ++ "." ++ last' := by
  intro h
  have heq := (dotted_inj hthird hsecond h).2
  rw [← heq, String.toList_append, String.toList_append] at hlast
  exact hlast (by simp)

/-- The name that the last label, the second last and the one before them make up. -/
def nameOf (last second : String) (third : Option String) : String :=
  match third with
  | some third => third ++ "." ++ (second ++ "." ++ last)
  | none => second ++ "." ++ last

theorem nameOf_inj {third third' : Option String} (hlast : '.' ∉ last.toList)
    (hlast' : '.' ∉ last'.toList) (hsecond : '.' ∉ second.toList) (hsecond' : '.' ∉ second'.toList)
    (hthird : ∀ label ∈ third, '.' ∉ label.toList) (hthird' : ∀ label ∈ third', '.' ∉ label.toList)
    (h : nameOf last second third = nameOf last' second' third') :
    last = last' ∧ second = second' ∧ third = third' := by
  cases third with
  | none =>
    cases third' with
    | none =>
      obtain ⟨rfl, rfl⟩ := dotted_inj hsecond hsecond' h
      exact ⟨rfl, rfl, rfl⟩
    | some third' => exact absurd h.symm (dotted_ne (hthird' third' rfl) hsecond hlast)
  | some third =>
    cases third' with
    | none => exact absurd h (dotted_ne (hthird third rfl) hsecond' hlast')
    | some third' =>
      obtain ⟨rfl, htwo⟩ := dotted_inj (hthird third rfl) (hthird' third' rfl) h
      obtain ⟨rfl, rfl⟩ := dotted_inj hsecond hsecond' htwo
      exact ⟨rfl, rfl, rfl⟩

/-- The third last label counts below a suffix of two. -/
theorem lastLabels_of_reverse {rest : List String} (h : labels.reverse = last :: second :: rest) :
    lastLabels multiPartSuffixes labels =
      some (nameOf last second
        (if second ++ "." ++ last ∈ multiPartSuffixes then rest.head? else none)) := by
  rw [lastLabels, h]
  cases rest with
  | nil => split_ifs <;> rfl
  | cons third rest =>
    by_cases hsuffix : second ++ "." ++ last ∈ multiPartSuffixes
    · rw [if_pos hsuffix]
      exact if_pos (List.contains_iff_mem.mpr hsuffix)
    · rw [if_neg hsuffix]
      exact if_neg (mt List.contains_iff_mem.mp hsuffix)

theorem lastLabels_of_length (h : labels.length < 2) :
    lastLabels multiPartSuffixes labels = none := by
  rcases labels with _ | ⟨label, _ | ⟨label', labels⟩⟩
  · rfl
  · rfl
  · exact absurd h (by simp)

/-- The domains read off two lists of labels are one exactly when the lists name the same. -/
theorem lastLabels_eq_iff {labels' : List String} (hlabels : ∀ label ∈ labels, '.' ∉ label.toList)
    (hlabels' : ∀ label ∈ labels', '.' ∉ label.toList) :
    lastLabels multiPartSuffixes labels = lastLabels multiPartSuffixes labels' ↔
      NamesAlike labels labels' := by
  have hrev : ∀ label ∈ labels.reverse, '.' ∉ label.toList := fun label h =>
    hlabels label (List.mem_reverse.mp h)
  have hrev' : ∀ label ∈ labels'.reverse, '.' ∉ label.toList := fun label h =>
    hlabels' label (List.mem_reverse.mp h)
  have hnone : ∀ {ls : List String} {label : String}, ls.reverse = [label] →
      lastLabels multiPartSuffixes ls = none := by
    intro ls label hls
    rw [lastLabels, hls]
  have hnil : ∀ {ls : List String}, ls.reverse = [] →
      lastLabels multiPartSuffixes ls = none := by
    intro ls hls
    rw [lastLabels, hls]
  unfold NamesAlike
  rcases hls : labels.reverse with _ | ⟨last, _ | ⟨second, rest⟩⟩ <;>
    rcases hls' : labels'.reverse with _ | ⟨last', _ | ⟨second', rest'⟩⟩
  · simp [hnil hls, hnil hls']
  · simp [hnil hls, hnone hls']
  · simp [hnil hls, lastLabels_of_reverse hls']
  · simp [hnone hls, hnil hls']
  · simp [hnone hls, hnone hls']
  · simp [hnone hls, lastLabels_of_reverse hls']
  · simp [hnil hls', lastLabels_of_reverse hls]
  · simp [hnone hls', lastLabels_of_reverse hls]
  · rw [lastLabels_of_reverse hls, lastLabels_of_reverse hls', Option.some.injEq]
    rw [hls] at hrev
    rw [hls'] at hrev'
    have hkept : ∀ {rest : List String} {suffix : String},
        (∀ label ∈ rest, '.' ∉ label.toList) →
        ∀ label ∈ (if suffix ∈ multiPartSuffixes then rest.head? else none),
          '.' ∉ label.toList := by
      intro rest suffix hrest label hlabel
      split at hlabel
      · exact hrest label (List.mem_of_head? hlabel)
      · exact absurd hlabel (by simp)
    constructor
    · intro h
      obtain ⟨rfl, rfl, hthird⟩ := nameOf_inj (hrev last (by simp)) (hrev' last' (by simp))
        (hrev second (by simp)) (hrev' second' (by simp))
        (hkept fun label hl => hrev label (by simp [hl]))
        (hkept fun label hl => hrev' label (by simp [hl])) h
      exact ⟨rfl, rfl, fun hsuffix => by rwa [if_pos hsuffix, if_pos hsuffix] at hthird⟩
    · rintro ⟨rfl, rfl, hsame⟩
      by_cases hsuffix : second ++ "." ++ last ∈ multiPartSuffixes
      · rw [if_pos hsuffix, if_pos hsuffix, hsame hsuffix]
      · rw [if_neg hsuffix, if_neg hsuffix]

/-- The labels of a text, as the pieces between its dots. -/
theorem labels_eq (s : String) :
    (splitAtChar '.' s).filter (· ≠ "") = (pieces '.' s.toList).map String.ofList := by
  rw [splitAtChar, pieces, List.filter_map]
  congr 1
  refine List.filter_congr fun piece _ => ?_
  cases piece with
  | nil => rfl
  | cons c cs =>
    refine decide_eq_true fun hempty => ?_
    have hlist := congrArg String.toList hempty
    rw [String.toList_ofList] at hlist
    exact absurd hlist (List.cons_ne_nil c cs)

theorem labels_trimMatches (s : String) :
    (splitAtChar '.' (trimMatches '.' s)).filter (· ≠ "") =
      (splitAtChar '.' s).filter (· ≠ "") := by
  rw [labels_eq, labels_eq, toList_trimMatches, pieces_trimList]

theorem not_mem_labels {label : String} (h : label ∈ (splitAtChar '.' s).filter (· ≠ "")) :
    '.' ∉ label.toList := by
  rw [labels_eq, List.mem_map] at h
  obtain ⟨piece, hpiece, rfl⟩ := h
  rw [String.toList_ofList]
  exact not_mem_of_mem_pieces '.' hpiece

theorem length_labels_of_not_mem (h : '.' ∉ s.toList) :
    ((splitAtChar '.' s).filter (· ≠ "")).length < 2 := by
  rw [labels_eq, List.length_map, pieces_of_not_mem '.' h]
  split <;> simp

theorem not_mem_hostLabels (host : String) : ∀ label ∈ hostLabels host, '.' ∉ label.toList := by
  intro label h
  unfold hostLabels at h
  split at h
  · exact absurd h List.not_mem_nil
  · exact not_mem_labels h

theorem stripStart_subset {start : String} {c : Char}
    (h : c ∈ ((stripStart start s).getD s).toList) : c ∈ s.toList := by
  cases hs : stripStart start s with
  | none =>
    rw [hs] at h
    exact h
  | some rest =>
    rw [hs] at h
    rw [stripStart_eq_some.mp hs]
    exact List.mem_append_right _ h

theorem mem_stripStart {start : String} {c : Char} (h : c ∈ s.toList) (hstart : c ∉ start.toList) :
    c ∈ ((stripStart start s).getD s).toList := by
  cases hs : stripStart start s with
  | none => exact h
  | some rest =>
    rw [stripStart_eq_some.mp hs] at h
    exact (List.mem_append.mp h).resolve_left hstart

/-- The server's tests of a host come before it looks at the labels, and add nothing to that. -/
theorem namedDomain_eq (raw : String) :
    namedDomain raw = lastLabels multiPartSuffixes (hostLabels (serverHost raw)) := by
  have htests : ∀ host : String,
      ((if host = "" ∨ !containsChar '.' host ∨ containsChar ' ' host then none
        else some host).bind fun host => registrableDomain ((stripStart "www." host).getD host)) =
        lastLabels multiPartSuffixes (hostLabels host) := by
    intro host
    by_cases hspace : ' ' ∈ host.toList
    · rw [if_pos (by simp [containsChar, hspace]), hostLabels, if_pos hspace]
      rfl
    rw [hostLabels, if_neg hspace]
    by_cases hdot : '.' ∈ host.toList
    · have hne : host ≠ "" := by
        rintro rfl
        exact absurd hdot (by simp)
      rw [if_neg (by simp [containsChar, hspace, hdot, hne]), Option.bind_some, registrableDomain,
        labels_trimMatches]
    · rw [if_pos (by simp [containsChar, hdot]), Option.bind_none]
      exact (lastLabels_of_length
        (length_labels_of_not_mem fun h => hdot (stripStart_subset h))).symm
  rw [← htests, namedDomain, extractHost]
  dsimp only
  by_cases hempty : toAsciiLowercase (trim raw) = ""
  · rw [if_pos hempty, serverHost, hempty]
    decide +kernel
  · rw [if_neg hempty]
    rfl

/-- So do the connector's. -/
theorem connector_registrableDomain_eq (raw : String) :
    Connector.registrableDomain raw =
      lastLabels multiPartSuffixes (hostLabels (connectorHost raw)) := by
  have htests : ∀ host : String,
      (let s := trimMatches '.' ((stripStart "www." host).getD host)
        if s = "" ∨ !containsChar '.' s ∨ containsChar ' ' s then none
        else lastLabels multiPartSuffixes ((splitAtChar '.' s).filter (· ≠ ""))) =
        lastLabels multiPartSuffixes (hostLabels host) := by
    intro host
    dsimp only
    by_cases hspace : ' ' ∈ host.toList
    · have hkept : ' ' ∈ (trimMatches '.' ((stripStart "www." host).getD host)).toList := by
        rw [toList_trimMatches]
        exact mem_trimList_of_not (mem_stripStart hspace (by decide)) (by decide)
      rw [if_pos (by simp [containsChar, hkept]), hostLabels, if_pos hspace]
      rfl
    have hspace' : ' ' ∉ (trimMatches '.' ((stripStart "www." host).getD host)).toList := by
      rw [toList_trimMatches]
      exact fun h => hspace (stripStart_subset (mem_of_mem_trimList h))
    rw [hostLabels, if_neg hspace, labels_trimMatches]
    by_cases hdot : '.' ∈ (trimMatches '.' ((stripStart "www." host).getD host)).toList
    · have hne : trimMatches '.' ((stripStart "www." host).getD host) ≠ "" := by
        intro h
        rw [h] at hdot
        exact absurd hdot (by simp)
      rw [if_neg (by simp [containsChar, hspace', hdot, hne])]
    · rw [if_pos (by simp [containsChar, hdot])]
      have hshort := length_labels_of_not_mem hdot
      rw [labels_trimMatches] at hshort
      exact (lastLabels_of_length hshort).symm
  rw [← htests, Connector.registrableDomain]
  dsimp only
  by_cases hraw : raw = ""
  · rw [if_pos hraw, hraw]
    decide +kernel
  rw [if_neg hraw]
  by_cases hempty : Connector.lower (Connector.strip raw) = ""
  · rw [if_pos hempty, connectorHost, hempty]
    decide +kernel
  · rw [if_neg hempty]
    rfl

/-- Where the two agree on the domain of a text, by the hosts they keep of it. -/
theorem domains_agree_iff (raw : String) :
    Connector.registrableDomain raw = namedDomain raw ↔
      NamesAlike (hostLabels (connectorHost raw)) (hostLabels (serverHost raw)) := by
  rw [connector_registrableDomain_eq, namedDomain_eq]
  exact lastLabels_eq_iff (not_mem_hostLabels _) (not_mem_hostLabels _)

/-! ## Both canonical forms -/

/-- The two copies compute the same email and the same domain of a text. -/
def CanonicalizersAgree (s : AsciiText) : Prop :=
  (∀ keyNamespace, Connector.canonicalizeEmail s.val =
    (canonicalizeEmail s.val keyNamespace).map CanonKey.value) ∧
    Connector.registrableDomain s.val = namedDomain s.val

/-- The two copies agree exactly where the address and the host of a text read the same. -/
theorem canonicalizersAgree_iff (s : AsciiText) :
    CanonicalizersAgree s ↔
      SameAddress s.val ∧
        NamesAlike (hostLabels (connectorHost s.val)) (hostLabels (serverHost s.val)) := by
  rw [CanonicalizersAgree, domains_agree_iff]
  refine and_congr_left fun _ => ?_
  constructor
  · intro h
    exact (emails_agree_iff s.val .customerContact).mp (h .customerContact)
  · intro h keyNamespace
    exact (emails_agree_iff s.val keyNamespace).mpr h

/-- A colon without a port stays in the connector's domain. -/
theorem empty_port_kept :
    namedDomain "acme.com:" = some "acme.com" ∧
      Connector.registrableDomain "acme.com:" = some "acme.com:" ∧
      ¬ ∀ s : AsciiText, CanonicalizersAgree s := by
  refine ⟨by decide +kernel, by decide +kernel, fun h => ?_⟩
  have hdomain := (h ⟨"acme.com:", forall_mem_of_all (by decide)⟩).2
  exact absurd hdomain (by decide +kernel)

end Verity.Analysis
