import ProtocolCorpus.Text.Mark

/-!
# Compatibility decompositions

Accented letters, ligatures, superscripts and the like are composed of plainer
characters. Which ones these are is told by the compatibility decomposition of
Unicode 15. Here it is told as far as words of ASCII letters and digits are
concerned: an accented letter has its base letter, and a ligature the letters it
joins.
-/

namespace ProtocolCorpus

/-- Runs of neighbouring code points that are composed of one letter or digit
and marks: the first code point and the small letters and digits in order. -/
def plainRuns : Array (Nat × String) :=
  #[(0xAA, "a"), (0xB2, "23"), (0xB9, "1o"), (0xC0, "aaaaaa"),
    (0xC7, "ceeeeiiii"), (0xD1, "nooooo"), (0xD9, "uuuuy"), (0xE0, "aaaaaa"),
    (0xE7, "ceeeeiiii"), (0xF1, "nooooo"), (0xF9, "uuuuy"),
    (0xFF, "yaaaaaaccccccccdd"), (0x112, "eeeeeeeeeegggggggghh"),
    (0x128, "iiiiiiiii"), (0x134, "jjkk"), (0x139, "llllll"), (0x143, "nnnnnn"),
    (0x14C, "oooooo"), (0x154, "rrrrrrsssssssstttt"),
    (0x168, "uuuuuuuuuuuuwwyyyzzzzzzs"), (0x1A0, "oo"), (0x1AF, "uu"),
    (0x1CD, "aaiioouuuuuuuuuu"), (0x1DE, "aaaa"), (0x1E6, "ggkkoooo"),
    (0x1F0, "j"), (0x1F4, "gg"), (0x1F8, "nnaa"),
    (0x200, "aaaaeeeeiiiioooorrrruuuusstt"), (0x21E, "hh"),
    (0x226, "aaeeooooooooyy"), (0x2B0, "h"), (0x2B2, "jr"), (0x2B7, "wy"),
    (0x2E1, "lsx"), (0x1D2C, "a"), (0x1D2E, "b"), (0x1D30, "de"),
    (0x1D33, "ghijklmn"), (0x1D3C, "o"), (0x1D3E, "prtuwa"), (0x1D47, "bde"),
    (0x1D4D, "g"), (0x1D4F, "km"), (0x1D52, "o"), (0x1D56, "ptu"),
    (0x1D5B, "v"), (0x1D62, "iruv"), (0x1D9C, "c"), (0x1DA0, "f"),
    (0x1DBB, "z"),
    (0x1E00, "aabbbbbbccddddddddddeeeeeeeeeeffgghhhhhhhhhhiiiikkkk"),
    (0x1E34, "kkllllllllmmmmmmnnnnnnnnoooooooopppprrrrrrrrssssssss"),
    (0x1E68, "ssttttttttuuuuuuuuuuvvvvwwwwwwwwwwxxxxyyzzzzzzhtwy"),
    (0x1E9B, "s"),
    (0x1EA0, "aaaaaaaaaaaaaaaaaaaaaaaaeeeeeeeeeeeeeeeeiiiioooooooo"),
    (0x1ED4, "oooooooooooooooouuuuuuuuuuuuuuyyyyyyyy"), (0x2070, "0i"),
    (0x2074, "456789"), (0x207F, "n0123456789"), (0x2090, "aeox"),
    (0x2095, "hklmnpst"), (0x2102, "c"), (0x210A, "ghhhh"), (0x2110, "iill"),
    (0x2115, "n"), (0x2119, "pqrrr"), (0x2124, "z"), (0x2128, "z"),
    (0x212A, "kabc"), (0x212F, "eef"), (0x2133, "mo"), (0x2139, "i"),
    (0x2145, "ddeij"), (0x2160, "i"), (0x2164, "v"), (0x2169, "x"),
    (0x216C, "lcdmi"), (0x2174, "v"), (0x2179, "x"), (0x217C, "lcdm"),
    (0x2460, "123456789"),
    (0x24B6, "abcdefghijklmnopqrstuvwxyzabcdefghijklmnopqrstuvwxyz"),
    (0x24EA, "0"), (0x2C7C, "jv"), (0xA7F2, "cfq"), (0xFF10, "0123456789"),
    (0xFF21, "abcdefghijklmnopqrstuvwxyz"),
    (0xFF41, "abcdefghijklmnopqrstuvwxyz"), (0x107A5, "q"),
    (0x1D400, "abcdefghijklmnopqrstuvwxyzabcdefghijklmnopqrstuvwxyz"),
    (0x1D434, "abcdefghijklmnopqrstuvwxyzabcdefg"),
    (0x1D456, "ijklmnopqrstuvwxyzabcdefghijklmnopqrstuvwxyzabcdefgh"),
    (0x1D48A, "ijklmnopqrstuvwxyza"), (0x1D49E, "cd"), (0x1D4A2, "g"),
    (0x1D4A5, "jk"), (0x1D4A9, "nopq"), (0x1D4AE, "stuvwxyzabcd"),
    (0x1D4BB, "f"), (0x1D4BD, "hijklmn"),
    (0x1D4C5, "pqrstuvwxyzabcdefghijklmnopqrstuvwxyzabcdefghijklmno"),
    (0x1D4F9, "pqrstuvwxyzab"), (0x1D507, "defg"), (0x1D50D, "jklmnopq"),
    (0x1D516, "stuvwxy"), (0x1D51E, "abcdefghijklmnopqrstuvwxyzab"),
    (0x1D53B, "defg"), (0x1D540, "ijklm"), (0x1D546, "o"), (0x1D54A, "stuvwxy"),
    (0x1D552, "abcdefghijklmnopqrstuvwxyzabcdefghijklmnopqrstuvwxyz"),
    (0x1D586, "abcdefghijklmnopqrstuvwxyzabcdefghijklmnopqrstuvwxyz"),
    (0x1D5BA, "abcdefghijklmnopqrstuvwxyzabcdefghijklmnopqrstuvwxyz"),
    (0x1D5EE, "abcdefghijklmnopqrstuvwxyzabcdefghijklmnopqrstuvwxyz"),
    (0x1D622, "abcdefghijklmnopqrstuvwxyzabcdefghijklmnopqrstuvwxyz"),
    (0x1D656, "abcdefghijklmnopqrstuvwxyzabcdefghijklmnopqrstuvwxyz"),
    (0x1D68A, "abcdefghijklmnopqrstuvwxyz"),
    (0x1D7CE, "01234567890123456789012345678901234567890123456789"),
    (0x1F12B, "cr"), (0x1F130, "abcdefghijklmnopqrstuvwxyz"),
    (0x1FBF0, "0123456789")]

/-- Runs of neighbouring code points that are composed of more or of marks only,
divided by commas. An underscore stands for what is no letter, digit or mark. -/
def plainWords : Array (Nat × String) :=
  #[(0xBC, "1_4,1_2,3_4"), (0x132, "ij,ij"), (0x13F, "l_,l_"), (0x149, "_n"),
    (0x1C4, "dz,dz,dz,lj,lj,lj,nj,nj,nj"), (0x1F1, "dz,dz,dz"), (0x1E9A, "a_"),
    (0x20A8, "rs"), (0x2100, "a_c,a_s"), (0x2103, "_c"), (0x2105, "c_o,c_u"),
    (0x2109, "_f"), (0x2116, "no"), (0x2120, "sm,tel,tm"), (0x213B, "fax"),
    (0x2150, "1_7,1_9,1_10,1_3,2_3,1_5,2_5,3_5,4_5,1_6,5_6,1_8,3_8,5_8"),
    (0x215E, "7_8,1_"), (0x2161, "ii,iii,iv"), (0x2165, "vi,vii,viii,ix"),
    (0x216A, "xi,xii"), (0x2171, "ii,iii,iv"), (0x2175, "vi,vii,viii,ix"),
    (0x217A, "xi,xii"), (0x2189, "0_3"),
    (0x2469, "10,11,12,13,14,15,16,17,18,19,20,_1_,_2_,_3_,_4_,_5_,_6_"),
    (0x247A, "_7_,_8_,_9_,_10_,_11_,_12_,_13_,_14_,_15_,_16_,_17_,_18_"),
    (0x2486, "_19_,_20_,1_,2_,3_,4_,5_,6_,7_,8_,9_,10_,11_,12_,13_,14_"),
    (0x2496, "15_,16_,17_,18_,19_,20_,_a_,_b_,_c_,_d_,_e_,_f_,_g_,_h_"),
    (0x24A4, "_i_,_j_,_k_,_l_,_m_,_n_,_o_,_p_,_q_,_r_,_s_,_t_,_u_,_v_"),
    (0x24B2, "_w_,_x_,_y_,_z_"),
    (0x3250, "pte,21,22,23,24,25,26,27,28,29,30,31,32,33,34,35"),
    (0x32B1, "36,37,38,39,40,41,42,43,44,45,46,47,48,49,50,1_,2_,3_,4_"),
    (0x32C4, "5_,6_,7_,8_,9_,10_,11_,12_,hg,erg,ev,ltd"),
    (0x3358, "0_,1_,2_,3_,4_,5_,6_,7_,8_,9_,10_,11_,12_,13_,14_,15_"),
    (0x3368, "16_,17_,18_,19_,20_,21_,22_,23_,24_,hpa,da,au,bar,ov,pc"),
    (0x3377, "dm,dm2,dm3,iu"),
    (0x3380, "pa,na,_a,ma,ka,kb,mb,gb,cal,kcal,pf,nf,_f,_g,mg,kg,hz"),
    (0x3391, "khz,mhz,ghz,thz,_l,ml,dl,kl,fm,nm,_m,mm,cm,km,mm2,cm2,m2"),
    (0x33A2, "km2,mm3,cm3,m3,km3,m_s,m_s2,pa,kpa,mpa,gpa,rad,rad_s"),
    (0x33AF, "rad_s2,ps,ns,_s,ms,pv,nv,_v,mv,kv,mv,pw,nw,_w,mw,kw,mw"),
    (0x33C0, "k_,m_,a_m_,bq,cc,cd,c_kg,co_,db,gy,ha,hp,in,kk,km,kt,lm"),
    (0x33D1, "ln,log,lx,mb,mil,mol,ph,p_m_,ppm,pr,sr,sv,wb,v_m,a_m,1_"),
    (0x33E1, "2_,3_,4_,5_,6_,7_,8_,9_,10_,11_,12_,13_,14_,15_,16_,17_"),
    (0x33F1, "18_,19_,20_,21_,22_,23_,24_,25_,26_,27_,28_,29_,30_,31_"),
    (0x33FF, "gal"), (0xFB00, "ff,fi,fl,ffi,ffl,st,st"), (0xFF9E, ","),
    (0x1F100, "0_,0_,1_,2_,3_,4_,5_,6_,7_,8_,9_"),
    (0x1F110, "_a_,_b_,_c_,_d_,_e_,_f_,_g_,_h_,_i_,_j_,_k_,_l_,_m_,_n_"),
    (0x1F11E, "_o_,_p_,_q_,_r_,_s_,_t_,_u_,_v_,_w_,_x_,_y_,_z_,_s_"),
    (0x1F12D, "cd,wz"), (0x1F14A, "hv,mv,sd,ss,ppv,wc"), (0x1F16A, "mc,md,mr"),
    (0x1F190, "dj")]

/-- What a code point beyond ASCII is composed of, if that has letters or digits
or is nothing but marks. -/
def plain? (n : Nat) : Option Text :=
  match plainRuns.findSome? fun r =>
      if r.1 ≤ n then ((Text.ofString r.2)[n - r.1]?).map ([·]) else none with
  | some t => some t
  | none => plainWords.findSome? fun r =>
    if r.1 ≤ n then (Text.splitOn 0x2C (Text.ofString r.2))[n - r.1]? else none

/-- The code points of the decomposition. One without letters and digits is left
as it is. -/
def Scalar.decomposition : Scalar → List Nat
  | .stray _ => [0xFFFD]
  | .char c =>
    if c.toNat < 0x80 then [c.toNat]
    else ((plain? c.toNat).map fun t => t.map UInt8.toNat).getD [c.toNat]

def Text.decomposition (t : Text) : List Nat :=
  (scalars t).flatMap Scalar.decomposition

end ProtocolCorpus
