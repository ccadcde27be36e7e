import SharpSmith.Proofs.Nesting
import SharpSmith.Proofs.Rereading

/-!
# Fragments that are read again

What a statement or an expression is read as can be read again, and is itself: as long as its text
has the tokens that it was put together from, nothing that decides whether they are accepted, which
kind of statement they make or where the spaces go has changed. All of it depends on the kinds and
texts of the tokens alone, apart from the roles, which `Rereading` shows to be kept.
-/

namespace SharpSmith.Fragment

/-- Whether a token is a reserved word does not depend on where it stands. -/
lemma isKeyword_of_bare {t u : Token} (h : u.bare = t.bare) (word : String) :
    u.isKeyword word = t.isKeyword word := by
  rw [Token.isKeyword, kind_of_bare h, text_of_bare h, Token.isKeyword]

/-- Whether a token is one of some reserved words does not depend on where it stands. -/
lemma isKeywordIn_of_bare {t u : Token} (h : u.bare = t.bare) (words : List String) :
    u.isKeywordIn words = t.isKeywordIn words := by
  rw [Token.isKeywordIn, kind_of_bare h, text_of_bare h, Token.isKeywordIn]

/-- Whether a token opens a group does not depend on where it stands. -/
lemma opens_of_bare {t u : Token} (h : u.bare = t.bare) : u.opens = t.opens := by
  simp only [Token.opens, is_of_bare h]

/-- What a token closes does not depend on where it stands. -/
lemma closes?_of_bare {t u : Token} (h : u.bare = t.bare) : u.closes? = t.closes? := by
  simp only [Token.closes?, is_of_bare h]

/-- Whether a token closes a group does not depend on where it stands. -/
lemma closes_of_bare {t u : Token} (h : u.bare = t.bare) : u.closes = t.closes := by
  rw [Token.closes, closes?_of_bare h, Token.closes]

/-- Whether delimiters are balanced depends on the kinds and texts of tokens. -/
lemma Balanced.of_bare {ts us : List Token} (h : Balanced ts)
    (e : us.map Token.bare = ts.map Token.bare) : Balanced us := by
  induction h generalizing us with
  | nil =>
    rw [List.map_eq_nil_iff.1 e]
    exact .nil
  | token ho hc _ ih =>
    obtain ⟨u, us, rfl, hu, hus⟩ := List.map_eq_cons_iff.1 e
    exact .token ((opens_of_bare hu).trans ho) ((closes_of_bare hu).trans hc) (ih hus)
  | group ho hc _ _ ih₁ ih₂ =>
    rw [List.map_cons, List.map_append, List.map_cons] at e
    obtain ⟨o, vs, c, ws, rfl, heo, hvs, hec, hws⟩ := exists_of_map_bare e
    refine .group ((opens_of_bare heo).trans ho) ?_ (ih₁ hvs) (ih₂ hws)
    rw [closes?_of_bare hec, text_of_bare heo, hc]

/-- Tokens that are those of a group wherever they stand are a group. -/
lemma Group.of_bare {opener} {g us : List Token} (h : Group opener g)
    (e : us.map Token.bare = g.map Token.bare) : Group opener us := by
  cases h with
  | mk hi ho hc hb =>
    rw [List.map_cons, List.map_append, List.map_cons] at e
    obtain ⟨o, vs, c, ws, rfl, heo, hvs, hec, hws⟩ := exists_of_map_bare e
    rw [List.map_eq_nil_iff.1 hws]
    refine .mk ((is_of_bare heo _).trans hi) ((opens_of_bare heo).trans ho) ?_ (hb.of_bare hvs)
    rw [closes?_of_bare hec, text_of_bare heo, hc]

/-- Whether there is a `;` outside of groups depends on the kinds and texts of tokens. -/
lemma cutAtSemicolon?_of_bare {ts us : List Token} {depth}
    (e : us.map Token.bare = ts.map Token.bare) (h : cutAtSemicolon? depth ts = none) :
    cutAtSemicolon? depth us = none := by
  induction ts generalizing us depth with
  | nil =>
    rw [List.map_eq_nil_iff.1 e]
    rfl
  | cons t ts ih =>
    obtain ⟨u, us, rfl, hu, hus⟩ := List.map_eq_cons_iff.1 e
    rw [cutAtSemicolon?] at h ⊢
    rw [is_of_bare hu, opens_of_bare hu, closes_of_bare hu]
    split at h
    case isTrue => cases h
    case isFalse hs =>
      rw [if_neg hs]
      dsimp only at h ⊢
      rw [Option.map_eq_none_iff] at h ⊢
      exact ih hus h

/-- Tokens that end with one that cannot stand among type arguments. -/
def Stops (ts : List Token) : Prop :=
  ∃ init last, ts = init ++ [last] ∧ inTypeArguments last = false

/-- Other tokens before such an end do not change it. -/
lemma Stops.append {ts us} (h : Stops us) : Stops (ts ++ us) := by
  obtain ⟨init, last, rfl, hlast⟩ := h
  exact ⟨ts ++ init, last, by rw [List.append_assoc], hlast⟩

/-- A token before such an end does not change it. -/
lemma Stops.cons {t us} (h : Stops us) : Stops (t :: us) := by
  rw [← List.singleton_append]
  exact h.append

/-- A sign that cannot stand among type arguments ends them. -/
lemma stops_sign {t : Token} {text} (h : t.is text = true)
    (ht : text ∉ ["<", ">", ",", ".", "?", "[", "]"]) : Stops [t] :=
  ⟨[], t, rfl, inTypeArguments_of_is h ht⟩

/-- A reserved word that is no type ends type arguments. -/
lemma stops_keyword {t : Token} {word} (h : t.isKeyword word = true)
    (hw : typeKeywords.contains word = false) : Stops [t] := by
  refine ⟨[], t, rfl, ?_⟩
  simp only [Token.isKeyword, Bool.and_eq_true, beq_iff_eq] at h
  simp only [inTypeArguments, h, hw]

/-- A group in anything but square brackets ends type arguments. -/
lemma Group.stops {opener g} (h : Group opener g) (ho : opener ≠ "[") : Stops g := by
  cases h with
  | @mk o ts c hi _ hc _ =>
    have htext : o.text = opener := by
      simp only [Token.is, Bool.and_eq_true, beq_iff_eq] at hi
      exact hi.2
    refine ⟨o :: ts, c, rfl, ?_⟩
    rw [htext, Token.closes?] at hc
    split at hc
    case isTrue hclose => exact inTypeArguments_of_is hclose (by decide)
    split at hc
    case isTrue => exact absurd (Option.some.inj hc).symm ho
    split at hc
    case isTrue hclose => exact inTypeArguments_of_is hclose (by decide)
    case isFalse => cases hc

/-- What is read again can be cut after tokens that end with one that cannot stand among type
arguments. -/
lemma Resumed.exists_append {ts rest us} (hs : Stops ts) (h : Resumed (ts ++ rest) us) :
    ∃ vs ws, us = vs ++ ws ∧ vs.map Token.bare = ts.map Token.bare ∧ Resumed rest ws := by
  obtain ⟨init, last, rfl, hlast⟩ := hs
  rw [List.append_assoc] at h
  obtain ⟨vs, u, ws, rfl, hvs, hu, hrest⟩ := h.exists_cut hlast
  refine ⟨vs ++ [u], ws, by rw [List.append_assoc]; rfl, ?_, hrest⟩
  rw [List.map_append, List.map_append, hvs, List.map_singleton, List.map_singleton, hu]

end SharpSmith.Fragment

namespace SharpSmith.Statement

open Fragment

/-- Tokens that are those of a run wherever they stand are a run. -/
lemma Run.of_bare {ts us : List Token} (h : Run ts) (e : us.map Token.bare = ts.map Token.bare) :
    Run us := by
  induction h generalizing us with
  | nil =>
    rw [List.map_eq_nil_iff.1 e]
    exact .nil
  | token ho hc hs _ ih =>
    obtain ⟨u, us, rfl, hu, hus⟩ := List.map_eq_cons_iff.1 e
    exact .token ((opens_of_bare hu).trans ho) ((closes_of_bare hu).trans hc)
      ((is_of_bare hu _).trans hs) (ih hus)
  | group hg _ ih =>
    rw [List.map_append] at e
    obtain ⟨vs, ws, rfl, hvs, hws⟩ := List.map_eq_append_iff.1 e
    exact .group (hg.of_bare hvs) (ih hws)

/-- Which punctuator tokens start with does not depend on where they stand. -/
lemma startsAt_of_bare {ts us : List Token} (e : us.map Token.bare = ts.map Token.bare)
    (text : String) : startsAt text us = startsAt text ts := by
  cases ts with
  | nil => rw [List.map_eq_nil_iff.1 e]
  | cons t ts =>
    obtain ⟨u, us, rfl, hu, -⟩ := List.map_eq_cons_iff.1 e
    simp only [startsAt, List.head?_cons, Option.any_some, is_of_bare hu]

/-- Which form tokens start with does not depend on where they stand. -/
lemma startsForm_of_bare {ts us : List Token} (e : us.map Token.bare = ts.map Token.bare) :
    startsForm us = startsForm ts := by
  cases ts with
  | nil => rw [List.map_eq_nil_iff.1 e]
  | cons t ts =>
    obtain ⟨u, us, rfl, hu, hus⟩ := List.map_eq_cons_iff.1 e
    simp only [startsForm, is_of_bare hu, isKeyword_of_bare hu, isKeywordIn_of_bare hu,
      startsAt_of_bare hus]

/-- Clauses depend on the kinds and texts of their tokens. -/
lemma Filter.of_bare {f us : List Token} (h : Filter f)
    (e : us.map Token.bare = f.map Token.bare) : Filter us := by
  cases h with
  | mk ht hg =>
    obtain ⟨u, us, rfl, hu, hus⟩ := List.map_eq_cons_iff.1 e
    exact .mk ((text_of_bare hu).trans ht) (hg.of_bare hus)

/-- Tokens that are those of a `catch` clause wherever they stand are one. -/
lemma Catch.of_bare {c us : List Token} (h : Catch c)
    (e : us.map Token.bare = c.map Token.bare) : Catch us := by
  cases h with
  | mk ht hheader hfilter hbody =>
    rw [List.map_append, List.map_append, List.map_cons] at e
    obtain ⟨us, bs, rfl, hus, hbs⟩ := List.map_eq_append_iff.1 e
    obtain ⟨us, fs, rfl, hus, hfs⟩ := List.map_eq_append_iff.1 hus
    obtain ⟨u, hs, rfl, hu, hhs⟩ := List.map_eq_cons_iff.1 hus
    refine .mk ((isKeyword_of_bare hu _).trans ht) (hheader.imp ?_ (·.of_bare hhs))
      (hfilter.imp ?_ (·.of_bare hfs)) (hbody.of_bare hbs)
    · rintro rfl
      exact List.map_eq_nil_iff.1 hhs
    · rintro rfl
      exact List.map_eq_nil_iff.1 hfs

/-- Tokens that are those of `catch` clauses wherever they stand are such clauses. -/
lemma Catches.of_bare {cs us : List Token} (h : Catches cs)
    (e : us.map Token.bare = cs.map Token.bare) : Catches us := by
  induction h generalizing us with
  | nil =>
    rw [List.map_eq_nil_iff.1 e]
    exact .nil
  | cons hc _ ih =>
    rw [List.map_append] at e
    obtain ⟨vs, ws, rfl, hvs, hws⟩ := List.map_eq_append_iff.1 e
    exact .cons (hc.of_bare hvs) (ih hws)

/-- Tokens that are those of a `finally` clause wherever they stand are one. -/
lemma Finally.of_bare {f us : List Token} (h : Finally f)
    (e : us.map Token.bare = f.map Token.bare) : Finally us := by
  cases h with
  | mk ht hbody =>
    obtain ⟨u, us, rfl, hu, hus⟩ := List.map_eq_cons_iff.1 e
    exact .mk ((isKeyword_of_bare hu _).trans ht) (hbody.of_bare hus)

/-- Some `catch` clauses end type arguments. -/
lemma Catches.stops {cs} (h : Catches cs) (hne : cs ≠ []) : Stops cs := by
  induction h with
  | nil => exact absurd rfl hne
  | @cons c cs hc _ ih =>
    by_cases hcs : cs = []
    · cases hc with
      | mk _ _ _ hbody =>
        rw [hcs, List.append_nil]
        exact (hbody.stops (by decide)).append
    · exact (ih hcs).append

/-- A statement that holds no other is read again. -/
lemma Basic.reread {s rest us} (h : Basic s) (hr : Resumed (s ++ rest) us) :
    ∃ vs ws, us = vs ++ ws ∧ vs.map Token.bare = s.map Token.bare ∧ Basic vs ∧ Resumed rest ws := by
  cases h with
  | block hbody =>
    obtain ⟨vs, ws, rfl, hvs, hrest⟩ := hr.exists_append (hbody.stops (by decide))
    exact ⟨vs, ws, rfl, hvs, .block (hbody.of_bare hvs), hrest⟩
  | empty ht =>
    obtain ⟨vs, ws, rfl, hvs, hrest⟩ := hr.exists_append (stops_sign ht (by decide))
    obtain ⟨u, us, rfl, hu, hus⟩ := List.map_eq_cons_iff.1 hvs
    cases List.map_eq_nil_iff.1 hus
    exact ⟨[u], ws, rfl, hvs, .empty ((is_of_bare hu _).trans ht), hrest⟩
  | switch ht hheader hbody =>
    obtain ⟨vs, ws, rfl, hvs, hrest⟩ := hr.exists_append (hbody.stops (by decide)).append
    refine ⟨vs, ws, rfl, hvs, ?_, hrest⟩
    rw [List.map_append, List.map_cons] at hvs
    obtain ⟨us, bs, rfl, hus, hbs⟩ := List.map_eq_append_iff.1 hvs
    obtain ⟨u, hs, rfl, hu, hhs⟩ := List.map_eq_cons_iff.1 hus
    exact .switch ((isKeyword_of_bare hu _).trans ht) (hheader.of_bare hhs) (hbody.of_bare hbs)
  | @handled t body catches last ht hbody hcatches hlast hne =>
    have hstops : Stops (catches ++ last) := by
      rcases hlast with rfl | ⟨-, hg⟩
      · rw [List.append_nil] at hne ⊢
        exact hcatches.stops hne
      · exact (hg.stops (by decide)).cons.append
    rw [List.append_assoc (t :: body)] at hr ⊢
    obtain ⟨vs, ws, rfl, hvs, hrest⟩ := hr.exists_append hstops.append
    refine ⟨vs, ws, rfl, hvs, ?_, hrest⟩
    rw [List.map_append, List.map_cons, List.map_append] at hvs
    obtain ⟨us, cs, rfl, hus, hcs⟩ := List.map_eq_append_iff.1 hvs
    obtain ⟨u, bs, rfl, hu, hbs⟩ := List.map_eq_cons_iff.1 hus
    obtain ⟨cs, ls, rfl, hcs, hls⟩ := List.map_eq_append_iff.1 hcs
    rw [← List.append_assoc]
    refine .handled ((isKeyword_of_bare hu _).trans ht) (hbody.of_bare hbs) (hcatches.of_bare hcs)
      (hlast.imp ?_ (·.of_bare hls)) ?_
    · rintro rfl
      exact List.map_eq_nil_iff.1 hls
    · intro hnil
      apply hne
      have hmap : (catches ++ last).map Token.bare = (cs ++ ls).map Token.bare := by
        rw [List.map_append, List.map_append, hcs, hls]
      rw [hnil] at hmap
      exact List.map_eq_nil_iff.1 hmap
  | mode ht hbody =>
    obtain ⟨vs, ws, rfl, hvs, hrest⟩ := hr.exists_append (hbody.stops (by decide)).cons
    refine ⟨vs, ws, rfl, hvs, ?_, hrest⟩
    obtain ⟨u, bs, rfl, hu, hbs⟩ := List.map_eq_cons_iff.1 hvs
    exact .mode ((isKeywordIn_of_bare hu _).trans ht) (hbody.of_bare hbs)
  | @simple ts t hne hrun hform hfault ht =>
    -- the one form that is accepted by the roles of its tokens
    rw [List.append_assoc] at hr
    obtain ⟨vs, u, ws, rfl, hvs, hu, hkept, hrest⟩ := hr.exists_kept ht
    refine ⟨vs ++ [u], ws, by rw [List.append_assoc]; rfl, ?_, ?_, hrest⟩
    · rw [List.map_append, List.map_append, hvs, List.map_singleton, List.map_singleton, hu]
    · refine .simple ?_ (hrun.of_bare hvs) ((startsForm_of_bare hvs).trans hform)
        (operandFault?_respaced hvs hkept hfault) ((is_of_bare hu _).trans ht)
      rintro rfl
      exact hne (List.map_eq_nil_iff.1 hvs.symm)

/-- The first token of a statement and the header after it are read again. -/
lemma exists_header {t header rest us} (hheader : Group "(" header)
    (hr : Resumed (t :: header ++ rest) us) :
    ∃ u hs ws, us = u :: hs ++ ws ∧ u.bare = t.bare ∧ hs.map Token.bare = header.map Token.bare ∧
      Group "(" hs ∧ Resumed rest ws := by
  obtain ⟨vs, ws, rfl, hvs, hrest⟩ := hr.exists_append (hheader.stops (by decide)).cons
  obtain ⟨u, hs, rfl, hu, hhs⟩ := List.map_eq_cons_iff.1 hvs
  exact ⟨u, hs, ws, rfl, hu, hhs, hheader.of_bare hhs, hrest⟩

/-- A statement is read again. -/
lemma Stmt.reread {s rest us} (h : Stmt s) (hr : Resumed (s ++ rest) us) :
    ∃ vs ws, us = vs ++ ws ∧ vs.map Token.bare = s.map Token.bare ∧ Stmt vs ∧ Resumed rest ws := by
  induction h generalizing rest us with
  | basic hs =>
    obtain ⟨vs, ws, rfl, hvs, hbasic, hrest⟩ := hs.reread hr
    exact ⟨vs, ws, rfl, hvs, .basic hbasic, hrest⟩
  | @ifThen t header body ht hheader _ ih =>
    rw [List.append_assoc] at hr
    obtain ⟨u, hs, ws, rfl, hu, hhs, hgroup, hr⟩ := exists_header hheader hr
    obtain ⟨bs, ws, rfl, hbs, hbody, hrest⟩ := ih hr
    refine ⟨u :: hs ++ bs, ws, by rw [List.append_assoc], ?_,
      .ifThen ((isKeyword_of_bare hu _).trans ht) hgroup hbody, hrest⟩
    simp only [List.map_append, List.map_cons, hu, hhs, hbs]
  | @ifElse t header body e other ht hheader _ he _ ih₁ ih₂ =>
    rw [List.append_assoc, List.append_assoc] at hr
    obtain ⟨u, hs, ws, rfl, hu, hhs, hgroup, hr⟩ := exists_header hheader hr
    obtain ⟨bs, ws, rfl, hbs, hbody, hr⟩ := ih₁ hr
    have hr : Resumed ([e] ++ (other ++ rest)) ws := hr
    obtain ⟨es, ws, rfl, hes, hr⟩ := hr.exists_append (stops_keyword he (by decide))
    obtain ⟨os, ws, rfl, hos, hother, hrest⟩ := ih₂ hr
    obtain ⟨f, es, rfl, hf, hes⟩ := List.map_eq_cons_iff.1 hes
    cases List.map_eq_nil_iff.1 hes
    refine ⟨u :: hs ++ (bs ++ f :: os), ws, by simp, ?_,
      .ifElse ((isKeyword_of_bare hu _).trans ht) hgroup hbody ((isKeyword_of_bare hf _).trans he)
        hother, hrest⟩
    simp only [List.map_append, List.map_cons, hu, hhs, hbs, hf, hos]
  | @loop t header body ht hheader _ ih =>
    rw [List.append_assoc] at hr
    obtain ⟨u, hs, ws, rfl, hu, hhs, hgroup, hr⟩ := exists_header hheader hr
    obtain ⟨bs, ws, rfl, hbs, hbody, hrest⟩ := ih hr
    refine ⟨u :: hs ++ bs, ws, by rw [List.append_assoc], ?_,
      .loop ((isKeywordIn_of_bare hu _).trans ht) hgroup hbody, hrest⟩
    simp only [List.map_append, List.map_cons, hu, hhs, hbs]
  | @doWhile t body w condition e ht _ hw hcondition he ih =>
    have hr : Resumed ([t] ++ (body ++ (w :: condition ++ ([e] ++ rest)))) us := by simpa using hr
    obtain ⟨ts, ws, rfl, hts, hr⟩ := hr.exists_append (stops_keyword ht (by decide))
    obtain ⟨bs, ws, rfl, hbs, hbody, hr⟩ := ih hr
    obtain ⟨v, cs, ws, rfl, hv, hcs, hgroup, hr⟩ := exists_header hcondition hr
    obtain ⟨es, ws, rfl, hes, hrest⟩ := hr.exists_append (stops_sign he (by decide))
    obtain ⟨u, ts, rfl, hu, hts⟩ := List.map_eq_cons_iff.1 hts
    obtain ⟨f, es, rfl, hf, hes⟩ := List.map_eq_cons_iff.1 hes
    cases List.map_eq_nil_iff.1 hts
    cases List.map_eq_nil_iff.1 hes
    refine ⟨u :: bs ++ v :: cs ++ [f], ws, by simp, ?_,
      .doWhile ((isKeyword_of_bare hu _).trans ht) hbody ((isKeyword_of_bare hv _).trans hw) hgroup
        ((is_of_bare hf _).trans he), hrest⟩
    simp only [List.map_append, List.map_cons, List.map_nil, hu, hbs, hv, hcs, hf]

/-- The kind of a statement depends on the kinds and texts of its tokens. -/
lemma kindOf_of_bare {ts us : List Token} (e : us.map Token.bare = ts.map Token.bare) :
    kindOf us = kindOf ts := by
  cases ts with
  | nil => rw [List.map_eq_nil_iff.1 e]
  | cons t ts =>
    have hlast : us.getLast?.any (·.is "\x7d") = (t :: ts).getLast?.any (·.is "\x7d") := by
      have hany : ∀ o : Option Token, o.any (·.is "\x7d") =
          (o.map Token.bare).any fun b => b.1 == .punctuator && b.2 == "\x7d" := by
        intro o
        cases o <;> rfl
      have hmap := congrArg List.getLast? e
      rw [List.getLast?_map, List.getLast?_map] at hmap
      rw [hany, hmap, ← hany]
    obtain ⟨u, us, rfl, hu, hus⟩ := List.map_eq_cons_iff.1 e
    have hempty : us.isEmpty = ts.isEmpty := by
      have hmap := congrArg List.isEmpty hus
      rwa [List.isEmpty_map, List.isEmpty_map] at hmap
    simp only [kindOf, hempty, hlast, is_of_bare hu, isKeyword_of_bare hu, isKeywordIn_of_bare hu]

end SharpSmith.Statement

namespace SharpSmith.Fragment

/-- Tokens of a fragment that their text still has are read again. -/
lemma HasTokens.exists_respaced {text ts used} (htokens : tokenize false text = .ok ts)
    (hmem : ∀ t ∈ used, t ∈ ts) (h : HasTokens (joinTokens used) used) :
    ∃ us, tokenize false (joinTokens used) = .ok us ∧ Respaced none (roles used) us := by
  have hspelling : ∀ t ∈ used, Spelling t.kind t.text.toList ∧ t.kind ≠ .directive :=
    fun t ht => spelling_of_mem_tokensFrom htokens t (hmem t ht)
  exact tokenize_joinRoles (placed_of_mem_roles hspelling)
    ((hasTokens_joinTokens_iff hspelling).1 h)

end SharpSmith.Fragment

namespace SharpSmith

open Fragment

/-- A statement whose text has its tokens is read from this text. -/
lemma Statement.parse_reread {text ts used} (htokens : tokenize false text = .ok ts)
    (hb : Balanced ts) (hs : Stmt used) (hholds : HoldsOnly used ts)
    (h : HasTokens (joinTokens used) used) :
    parse (joinTokens used) = .ok ⟨kindOf used, joinTokens used⟩ := by
  obtain ⟨us, hus, hread⟩ := h.exists_respaced htokens (mem_of_holdsOnly hholds)
  have hbare := hread.bare_of_roles
  have hresumed : Resumed (used ++ []) us := by
    rw [List.append_nil]
    exact .start hread
  obtain ⟨vs, ws, rfl, hvs, hstmt, -⟩ := hs.reread hresumed
  -- the statement takes all tokens, since it takes as many as before
  have hws : ws = [] := by
    have hlength := congrArg List.length (hbare.trans hvs.symm)
    simpa using hlength
  rw [hws, List.append_nil] at hus hread hbare
  refine parse_eq_ok_iff.2 ⟨vs, vs, hus, ?_, hstmt, .inl rfl, ?_⟩
  · exact (balanced_of_holdsOnly hholds hb).of_bare hbare
  · rw [kindOf_of_bare hbare, (roles_respaced hread).2]

/-- Tokens are an expression if there are any, no `;` cuts them and no operand is at fault. -/
lemma Expression.fault?_eq_none_iff {size ts} :
    fault? size ts = none ↔ ts ≠ [] ∧ cutAtSemicolon? 0 ts = none ∧ operandFault? ts = none := by
  unfold fault?
  cases ts with
  | nil => simp
  | cons t ts => cases h : cutAtSemicolon? 0 (t :: ts) <;> simp

/-- What an expression is read from: balanced tokens without a fault. -/
lemma Expression.parse_eq_ok_iff {text e} :
    parse text = .ok e ↔
      ∃ ts, tokenize false text = .ok ts ∧ Balanced ts ∧ fault? text.utf8ByteSize ts = none ∧
        e = ⟨joinTokens ts⟩ := by
  unfold parse
  constructor
  · intro h
    split at h
    case h_1 => cases h
    case h_2 ts hts =>
      split at h
      case h_1 => cases h
      case h_2 hfault =>
        cases h
        obtain ⟨htokens, hb⟩ := Statement.balancedTokens_eq_ok_iff.1 hts
        exact ⟨ts, htokens, hb, hfault, rfl⟩
  · rintro ⟨ts, htokens, hb, hfault, rfl⟩
    rw [Statement.balancedTokens_eq_ok_iff.2 ⟨htokens, hb⟩]
    dsimp only
    rw [hfault]

/-- An expression whose text has its tokens is read from this text. -/
lemma Expression.parse_reread {text ts} (htokens : tokenize false text = .ok ts)
    (hb : Balanced ts) (hfault : fault? text.utf8ByteSize ts = none)
    (h : HasTokens (joinTokens ts) ts) : parse (joinTokens ts) = .ok ⟨joinTokens ts⟩ := by
  obtain ⟨us, hus, hread⟩ := h.exists_respaced htokens fun t ht => ht
  have hbare := hread.bare_of_roles
  obtain ⟨hkept, htext⟩ := roles_respaced hread
  obtain ⟨hne, hcut, hoperands⟩ := fault?_eq_none_iff.1 hfault
  refine parse_eq_ok_iff.2 ⟨us, hus, hb.of_bare hbare, fault?_eq_none_iff.2 ⟨?_, ?_, ?_⟩, ?_⟩
  · rintro rfl
    exact hne (List.map_eq_nil_iff.1 hbare.symm)
  · exact cutAtSemicolon?_of_bare hbare hcut
  · exact operandFault?_respaced hbare hkept hoperands
  · rw [htext]

/-- A statement or an expression whose text has the tokens that it was read from, a `;` after its
last brace apart, is read again as itself. -/
theorem parse_fixed (text : String) :
    (∀ s, Statement.parse text = .ok s →
      ∃ ts used, tokenize false text = .ok ts ∧ Statement.only text.utf8ByteSize ts = .ok used ∧
        Statement.HoldsOnly used ts ∧
        (HasTokens s.text used → Statement.parse s.text = .ok s)) ∧
    ∀ e ts, Expression.parse text = .ok e → tokenize false text = .ok ts → HasTokens e.text ts →
      Expression.parse e.text = .ok e := by
  constructor
  · intro s h
    obtain ⟨ts, used, htokens, hb, hs, hholds, rfl⟩ := Statement.parse_eq_ok_iff.1 h
    exact ⟨ts, used, htokens, Statement.only_complete hs hholds, hholds,
      Statement.parse_reread htokens hb hs hholds⟩
  · intro e ts h htokens
    obtain ⟨us, hus, hb, hfault, rfl⟩ := Expression.parse_eq_ok_iff.1 h
    cases hus.symm.trans htokens
    exact Expression.parse_reread htokens hb hfault

/-- The `++` of `if (a) ++b;` is put after its operand in the whole text, and before it in the run
that is checked by itself; both are read again as they were. -/
theorem parse_fixed_increment :
    Statement.parse "if (a) ++b; else x = (int)y>>1 ? c! : d;" =
        .ok ⟨.compound, "if (a)++ b; else x = (int)y >> 1 ? c! : d;"⟩ ∧
      Statement.parse "if (a)++ b; else x = (int)y >> 1 ? c! : d;" =
        .ok ⟨.compound, "if (a)++ b; else x = (int)y >> 1 ? c! : d;"⟩ ∧
      Expression.parse "f<T ?>(a! , b>>c) ? (e) g : - h" = .ok ⟨"f<T ?>(a!, b >> c) ? (e) g : -h"⟩ ∧
      Expression.parse "f<T ?>(a!, b >> c) ? (e) g : -h" =
        .ok ⟨"f<T ?>(a!, b >> c) ? (e) g : -h"⟩ := by
  have hs : Statement.parse "if (a) ++b; else x = (int)y>>1 ? c! : d;" =
      .ok ⟨.compound, "if (a)++ b; else x = (int)y >> 1 ? c! : d;"⟩ := by decide +kernel
  have he : Expression.parse "f<T ?>(a! , b>>c) ? (e) g : - h" =
      .ok ⟨"f<T ?>(a!, b >> c) ? (e) g : -h"⟩ := by decide +kernel
  refine ⟨hs, ?_, he, ?_⟩
  · obtain ⟨ts, used, htokens, honly, -, hfixed⟩ := (parse_fixed _).1 _ hs
    apply hfixed
    have hsame : (tokenize false "if (a) ++b; else x = (int)y>>1 ? c! : d;" >>=
        Statement.only "if (a) ++b; else x = (int)y>>1 ? c! : d;".utf8ByteSize).toOption.map
          (List.map Token.bare) =
        bareTokens? false true "if (a)++ b; else x = (int)y >> 1 ? c! : d;".toList := by
      decide +kernel
    rw [htokens, ok_bind, honly] at hsame
    exact tokenize_bare_iff.2 hsame.symm
  · obtain ⟨ts, htokens, -⟩ := Expression.parse_eq_ok_iff.1 he
    apply (parse_fixed _).2 _ ts he htokens
    have hsame : (tokenize false "f<T ?>(a! , b>>c) ? (e) g : - h").toOption.map
        (List.map Token.bare) =
        bareTokens? false true "f<T ?>(a!, b >> c) ? (e) g : -h".toList := by
      decide +kernel
    rw [htokens] at hsame
    exact tokenize_bare_iff.2 hsame.symm

end SharpSmith
