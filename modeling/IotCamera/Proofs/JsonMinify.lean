import IotCamera.Json.Minify

/-!
# Minifying any text

Whatever the text is, comments that are not closed and strings that are not
closed included, `cJSON_Minify` stays in the buffer and comes to an end. There
is a zero byte at `z`, and neither pointer ever gets past it: `json` stops
where it is, and `into` is never ahead of `json`, so that it is not
overwritten before it is read.
-/

namespace IotCamera

open CString

/-- The zero byte at `z` is still to be read. -/
structure MinifyRoom (z : Nat) (buf : List UInt8) (json into : Nat) : Prop where
  zero : buf[z]? = some 0
  json_le : json ≤ z
  into_le : into ≤ json

variable {z json into : Nat} {buf : List UInt8} {b : UInt8}

namespace MinifyRoom

theorem lt_length (h : MinifyRoom z buf json into) : z < buf.length :=
  (List.getElem?_eq_some_iff.1 h.zero).1

theorem read (h : MinifyRoom z buf json into) {i : Nat} (hi : i ≤ z) : ∃ b, buf[i]? = some b :=
  ⟨_, List.getElem?_eq_getElem (Nat.lt_of_le_of_lt hi h.lt_length)⟩

/-- What is not the zero byte is in front of it. -/
theorem lt_of_ne (h : MinifyRoom z buf json into) {i : Nat} (hi : i ≤ z) (hb : buf[i]? = some b)
    (hne : b ≠ 0) : i < z := by
  refine Nat.lt_of_le_of_ne hi fun heq => hne ?_
  rw [heq, h.zero] at hb
  exact (Option.some.inj hb).symm

theorem set (h : MinifyRoom z buf json into) {i : Nat} (hi : i < z) (b : UInt8) :
    MinifyRoom z (buf.set i b) json into :=
  ⟨by rw [List.getElem?_set_ne (Nat.ne_of_lt hi)]; exact h.zero, h.json_le, h.into_le⟩

theorem move (h : MinifyRoom z buf json into) {json' into' : Nat} (hjson : json' ≤ z)
    (hinto : into' ≤ json') : MinifyRoom z buf json' into' :=
  ⟨h.zero, hjson, hinto⟩

end MinifyRoom

theorem copyByte_eq_set (hb : buf[json]? = some b) (h : into < buf.length) :
    copyByte buf into json = some (buf.set into b) := by
  rw [copyByte, hb]
  exact putBytes_eq_set h

theorem onelineLoop_room {fuel : Nat} (h : MinifyRoom z buf json into) (hfuel : z - json < fuel) :
    ∃ json', onelineLoop buf fuel json = some json' ∧ json ≤ json' ∧ json' ≤ z := by
  induction fuel generalizing json with
  | zero => exact absurd hfuel (Nat.not_lt_zero _)
  | succ fuel ih =>
      obtain ⟨b, hb⟩ := h.read h.json_le
      rw [onelineLoop, hb]
      simp only [Option.bind_eq_bind, Option.bind_some]
      by_cases hzero : b = 0
      · rw [if_pos hzero]
        exact ⟨json, rfl, Nat.le_refl json, h.json_le⟩
      have hlt := h.lt_of_ne h.json_le hb hzero
      rw [if_neg hzero]
      by_cases hnewline : b = 10
      · rw [if_pos hnewline]
        exact ⟨json + 1, rfl, Nat.le_succ json, hlt⟩
      · rw [if_neg hnewline]
        have hnext : MinifyRoom z buf (json + 1) into := h.move hlt (Nat.le_succ_of_le h.into_le)
        obtain ⟨json', hloop, hle, hz⟩ := ih hnext (by omega)
        exact ⟨json', hloop, Nat.le_of_succ_le hle, hz⟩

theorem multilineLoop_room {fuel : Nat} (h : MinifyRoom z buf json into) (hfuel : z - json < fuel) :
    ∃ json', multilineLoop buf fuel json = some json' ∧ json ≤ json' ∧ json' ≤ z := by
  induction fuel generalizing json with
  | zero => exact absurd hfuel (Nat.not_lt_zero _)
  | succ fuel ih =>
      obtain ⟨b, hb⟩ := h.read h.json_le
      rw [multilineLoop, hb]
      simp only [Option.bind_eq_bind, Option.bind_some]
      by_cases hzero : b = 0
      · rw [if_pos hzero]
        exact ⟨json, rfl, Nat.le_refl json, h.json_le⟩
      have hlt := h.lt_of_ne h.json_le hb hzero
      have hnext : MinifyRoom z buf (json + 1) into := h.move hlt (Nat.le_succ_of_le h.into_le)
      obtain ⟨json', hloop, hle, hz⟩ := ih hnext (by omega)
      rw [if_neg hzero]
      by_cases hstar : b = ch '*'
      · obtain ⟨c, hc⟩ := h.read hlt
        rw [if_pos hstar, hc, Option.bind_some]
        by_cases hslash : c = ch '/'
        · have hne : c ≠ 0 := by rw [hslash]; decide
          rw [if_pos hslash]
          exact ⟨json + 2, rfl, by omega, h.lt_of_ne hlt hc hne⟩
        · rw [if_neg hslash]
          exact ⟨json', hloop, Nat.le_of_succ_le hle, hz⟩
      · rw [if_neg hstar]
        exact ⟨json', hloop, Nat.le_of_succ_le hle, hz⟩

theorem stringLoop_room {fuel : Nat} (h : MinifyRoom z buf json into) (hfuel : z - json < fuel) :
    ∃ buf' json' into', stringLoop fuel buf json into = some (buf', json', into') ∧
      buf'.length = buf.length ∧ json ≤ json' ∧ MinifyRoom z buf' json' into' := by
  induction fuel generalizing buf json into with
  | zero => exact absurd hfuel (Nat.not_lt_zero _)
  | succ fuel ih =>
      obtain ⟨b, hb⟩ := h.read h.json_le
      rw [stringLoop, hb]
      simp only [Option.bind_eq_bind, Option.bind_some]
      by_cases hzero : b = 0
      · rw [if_pos hzero]
        exact ⟨buf, json, into, rfl, rfl, Nat.le_refl json, h⟩
      have hlt := h.lt_of_ne h.json_le hb hzero
      have hinto : into < z := Nat.lt_of_le_of_lt h.into_le hlt
      have hlen := h.lt_length
      have hset := h.set hinto b
      have hb' : (buf.set into b)[json]? = some b := by
        by_cases heq : into = json
        · rw [heq, List.getElem?_set_self (by omega)]
        · rw [List.getElem?_set_ne heq, hb]
      have hnext : MinifyRoom z (buf.set into b) (json + 1) (into + 1) :=
        hset.move hlt (Nat.succ_le_succ h.into_le)
      obtain ⟨buf', json', into', hloop, hlen', hle, hroom⟩ := ih hnext (by omega)
      have hone : ∃ buf' json' into', stringLoop fuel (buf.set into b) (json + 1) (into + 1) =
          some (buf', json', into') ∧ buf'.length = buf.length ∧ json ≤ json' ∧
            MinifyRoom z buf' json' into' :=
        ⟨buf', json', into', hloop, by rw [hlen', List.length_set], Nat.le_of_succ_le hle, hroom⟩
      rw [if_neg hzero, copyByte_eq_set hb (by omega), Option.bind_some, hb', Option.bind_some]
      by_cases hquote : b = ch '"'
      · rw [if_pos hquote, putBytes_eq_set (by rw [List.length_set]; omega), Option.bind_some]
        refine ⟨_, json + 1, into + 1, rfl, ?_, Nat.le_succ json, hnext.set hinto _⟩
        rw [List.length_set, List.length_set]
      rw [if_neg hquote]
      by_cases hslash : b = ch '\\'
      · obtain ⟨c, hc⟩ := hset.read hlt
        rw [if_pos hslash, hc, Option.bind_some]
        by_cases hpair : c = ch '"'
        · have hne : c ≠ 0 := by rw [hpair]; decide
          have hlt' := hset.lt_of_ne hlt hc hne
          have hinto₂ : into + 1 < z := Nat.lt_of_le_of_lt (Nat.succ_le_succ h.into_le) hlt'
          have htwo : MinifyRoom z ((buf.set into b).set (into + 1) c) (json + 2) (into + 2) :=
            (hset.set hinto₂ c).move hlt' (Nat.add_le_add_right h.into_le 2)
          obtain ⟨buf', json', into', hloop, hlen', hle, hroom⟩ := ih htwo (by omega)
          rw [if_pos hpair, copyByte_eq_set hc (by rw [List.length_set]; omega), Option.bind_some]
          refine ⟨buf', json', into', hloop, ?_, by omega, hroom⟩
          rw [hlen', List.length_set, List.length_set]
        · rw [if_neg hpair]
          exact hone
      · rw [if_neg hslash]
        exact hone

theorem minify_string_room (h : MinifyRoom z buf json into) (hlt : json < z) :
    ∃ buf' json' into', minify_string buf json into = some (buf', json', into') ∧
      buf'.length = buf.length ∧ json < json' ∧ MinifyRoom z buf' json' into' := by
  obtain ⟨b, hb⟩ := h.read h.json_le
  have hinto : into < z := Nat.lt_of_le_of_lt h.into_le hlt
  have hlen := h.lt_length
  have hnext : MinifyRoom z (buf.set into b) (json + 1) (into + 1) :=
    (h.set hinto b).move hlt (Nat.succ_le_succ h.into_le)
  have hfuel : z - (json + 1) < (buf.set into b).length := by
    rw [List.length_set]
    omega
  obtain ⟨buf', json', into', hloop, hlen', hle, hroom⟩ := stringLoop_room hnext hfuel
  refine ⟨buf', json', into', ?_, by rw [hlen', List.length_set], hle, hroom⟩
  rw [minify_string, copyByte_eq_set hb (by omega)]
  exact hloop

theorem minifyLoop_room {fuel : Nat} (h : MinifyRoom z buf json into) (hfuel : z - json < fuel) :
    ∃ buf', minifyLoop fuel buf json into = some buf' ∧ buf'.length = buf.length ∧
      ∃ into' ≤ z, buf'[into']? = some 0 := by
  induction fuel generalizing buf json into with
  | zero => exact absurd hfuel (Nat.not_lt_zero _)
  | succ fuel ih =>
      obtain ⟨b, hb⟩ := h.read h.json_le
      have hlen := h.lt_length
      rw [minifyLoop, hb]
      simp only [Option.bind_eq_bind, Option.bind_some]
      by_cases hzero : b = 0
      · have hinto : into < buf.length :=
          Nat.lt_of_le_of_lt (Nat.le_trans h.into_le h.json_le) hlen
        rw [if_pos hzero, putBytes_eq_set hinto]
        exact ⟨_, rfl, List.length_set, into, Nat.le_trans h.into_le h.json_le,
          List.getElem?_set_self hinto⟩
      have hlt := h.lt_of_ne h.json_le hb hzero
      have hskip : MinifyRoom z buf (json + 1) into := h.move hlt (Nat.le_succ_of_le h.into_le)
      -- past a comment, of which two characters have been looked at
      have comment : ∀ json', json + 2 ≤ json' → json' ≤ z →
          ∃ buf', minifyLoop fuel buf json' into = some buf' ∧ buf'.length = buf.length ∧
            ∃ into' ≤ z, buf'[into']? = some 0 := by
        intro json' hle hz
        have hinto := h.into_le
        exact ih (h.move hz (by omega)) (by omega)
      rw [if_neg hzero]
      by_cases hspace : b = ch ' ' ∨ b = 9 ∨ b = 13 ∨ b = 10
      · rw [if_pos hspace]
        exact ih hskip (by omega)
      rw [if_neg hspace]
      by_cases hslash : b = ch '/'
      · obtain ⟨c, hc⟩ := h.read hlt
        have hinto : into ≤ json + 2 := Nat.le_add_right_of_le h.into_le
        have hfuel₂ : z - (json + 2) < buf.length := by omega
        rw [if_pos hslash, hc, Option.bind_some]
        by_cases hone : c = ch '/'
        · have hne : c ≠ 0 := by rw [hone]; decide
          have hstart : MinifyRoom z buf (json + 2) into := h.move (h.lt_of_ne hlt hc hne) hinto
          obtain ⟨json', hloop, hle, hz⟩ := onelineLoop_room hstart hfuel₂
          rw [if_pos hone, skip_oneline_comment, hloop, Option.bind_some]
          exact comment json' hle hz
        rw [if_neg hone]
        by_cases hmulti : c = ch '*'
        · have hne : c ≠ 0 := by rw [hmulti]; decide
          have hstart : MinifyRoom z buf (json + 2) into := h.move (h.lt_of_ne hlt hc hne) hinto
          obtain ⟨json', hloop, hle, hz⟩ := multilineLoop_room hstart hfuel₂
          rw [if_pos hmulti, skip_multiline_comment, hloop, Option.bind_some]
          exact comment json' hle hz
        · rw [if_neg hmulti]
          exact ih hskip (by omega)
      rw [if_neg hslash]
      by_cases hquote : b = ch '"'
      · obtain ⟨buf₁, json', into', hstring, hlen₁, hle, hroom⟩ := minify_string_room h hlt
        obtain ⟨buf', hloop, hlen', hend⟩ := ih hroom (by omega)
        rw [if_pos hquote, hstring, Option.bind_some]
        exact ⟨buf', hloop, hlen'.trans hlen₁, hend⟩
      · have hinto : into < z := Nat.lt_of_le_of_lt h.into_le hlt
        have hnext : MinifyRoom z (buf.set into b) (json + 1) (into + 1) :=
          (h.set hinto b).move hlt (Nat.succ_le_succ h.into_le)
        obtain ⟨buf', hloop, hlen', hend⟩ := ih hnext (by omega)
        rw [if_neg hquote, copyByte_eq_set hb (by omega), Option.bind_some]
        exact ⟨buf', hloop, by rw [hlen', List.length_set], hend⟩

/-- `cJSON_Minify` of a string stays in its buffer and leaves a string there
that is no longer. -/
theorem minify_any_text (json s : List UInt8) (h : str json = some s) :
    ∃ buf t, cJSON_Minify (some json) = some (some buf) ∧ buf.length = json.length ∧
      str buf = some t ∧ t.length ≤ s.length := by
  have hzero : json[s.length]? = some 0 := getElem?_length_str h
  have hroom : MinifyRoom s.length json 0 0 := ⟨hzero, Nat.zero_le _, Nat.le_refl 0⟩
  obtain ⟨buf, hloop, hlen, into, hle, hget⟩ :=
    minifyLoop_room hroom (show s.length - 0 < json.length from length_str_lt h)
  obtain ⟨t, ht⟩ := str_of_mem (List.mem_of_getElem? hget)
  refine ⟨buf, t, ?_, hlen, ht, ?_⟩
  · rw [cJSON_Minify, hloop]
    rfl
  · exact Nat.le_trans (length_str_le hget ht) hle

theorem minify_any_text_open : ∃ buf t,
    cJSON_Minify (some (bytes "[1, /* \"" ++ [0])) = some (some buf) ∧
      buf.length = 8 + 1 ∧ str buf = some t ∧ t.length ≤ 8 :=
  minify_any_text _ (bytes "[1, /* \"") (str_append_zero (by decide))

end IotCamera
