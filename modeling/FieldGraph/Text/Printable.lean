import FieldGraph.Text.Ranges

/-! # Printable characters

Characters that show as themselves: no controls, format characters, unassigned or private code
points, and no separator but the space.
-/

namespace FieldGraph.Text

/-- The characters beyond the ASCII range that do not show as themselves. -/
def wideHidden : Ranges :=
  .ofText 0x80 (
    "a33mb714cgehbbbub397b38c50cdb55i27egrwb192b48c59c101o59c49cpb28cbblf31j74b161bicccwbhbbdecjc" ++
    "cceibecbfczcdbgeccwbhbcbcbccbbfeccddbhebbhrkdbjbdbwbhbcbfckbdbdcbpecmhhbdbicccwbhbcbfcjcccdh" ++
    "decbfcskcbgddbedcbbbcdcdddmefddbecbgbovfnbdbxbqcjbdbehcbdcbceckhwbdbxbkbfcjbdbehcgcbeckbcnnb" ++
    "db51bdbgeqc26bdbsdybjbbchdbegbbbigkcdm58e29.37cbbbfbybbbxcfbbbgckce32.72b36e39b36bpbn37.198b" ++
    "bfbc377bechbbbec41bec33bechbbbecpb57bec67c32d26g86cgc640b28d89hwjyjumnbdbcm94ckgkgoblg89h43f" ++
    "70k31bmemebd42cfl44e26gld62c65b29clgkgoc31.49.77d47b116i60dpd60h43cli43f534cgc38cgcibbbbbbb3" ++
    "1c53bpbocgbtcdbjryi47rcc27bnd33p33p140e663zlv1812c32b349f45bbfbc56hcoyjhbhbhbhbhbhbhbhb126.3" ++
    "4.26b89m214.26mf63b86c103f43b94b84m47b29293d55j348u184i203fcbbbfy59dkg56i70img116l30d78ble33" ++
    "b55jockc103y28kgcgcgjhbhb60e126ckg11172mxe49e2048.6400.366c106.38hmff26bfbbbcbcb125q445c54hb" ++
    "32.42g51btbeefb135e190dgcgcgcddhbhnccmb26btbcbpco34.123fde45d88bndb47.46.130.29d49p28e36j30f" ++
    "43f30b37eo42.158ckg36e36e40i52lmbpbhbcblbpbhbc67.311jwkiygb42bj69gcbb44bcdbcxb72ij48tbcf33d2" ++
    "7fb64.56euc50bcfibdb29cdekhjh64.32.39emj54d29c27f26hemh80.73.55.51n51h46ik294.31b42bdcc78.40" ++
    "i42w26.38.28uxj78e36j62bfnzhkg53bsi39j96bulsb44.65hbbbebpblg59fkgebicccwbhbcbfbkcccdcbgbfhch" ++
    "df139.92bf30.72ik166.54c38.34.69lkgnt58gk54.27cpex185.60.100.83micbcibcb30bccmjk70ic46cl27.7" ++
    "2i83n73.263jb45bok29d32cwbo73hbcb44dbbcbjikggbcb37bcbghk310z183bp50n923.102.111bfl196.2636.9" ++
    "9n1071.4049.583.8633.569h31bke81bkg30cgk70kkbhbvft688.91.101.75e57hr64flco6136i1238.42j8935e" ++
    "bhbcb291.45drei396.2308.107fndjhkce4704.46cxj116.60.246k39c74i112v70.154um87jz135.85b71bccbc" ++
    "ccebmbbbhb65becibhb28bebfbbdhb340c292c702pfbp1104.31.225hbrchbcbf213.45dockec320.31r58fb1248" ++
    "hbebcbpb197cq41.76ekec785.68.76.61.194eb27bcbbcbbkbebbbbgbebbbbbbdbcbbcbbbbbbbbbbcbbcebhbebe" ++
    "bbbkbrfdbfbr52c270.44e100mpcpbpb37k174.56.29n44ejhcog154.984fqdnd116m89hmebpme56ikg40i30cc78" ++
    ".340mocfdfdhj29dlfgkkgiihj147b55.37k1030.42720.32.4153h222c5762o7473.3103.542.1506.4939.7162" ++
    "13.240.196112")

/-- Whether a character shows as itself. -/
def isPrintable (c : Char) : Bool :=
  if beyondAscii c then !wideHidden.holds c.toNat
  else 0x20 ≤ c.toNat && c.toNat < 0x7F

end FieldGraph.Text
