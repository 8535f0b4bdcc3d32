import FieldGraph.Text.Ranges

/-! # Letters

The characters of the general letter categories: upper, lower and title case
letters, modifier letters, and letters without case.
-/

namespace FieldGraph.Text

/-- The letters beyond the ASCII range. -/
def wideLetters : Ranges :=
  .ofText 0x80 (
    "42bkbebfxb31b458emofhbbb129fbccebbgbbdbbbub83b139i166b38cbg41.71.27ee45.43.35cb99bbpchckdcbq" ++
    "bb30.29.89lby33jcebfwebjbdbxzhlfybgr42.58.54dbsbhkpqeicccwbhbbdedbqbncbdockbigeccwbhbcbcbc31" ++
    "ebbtdqjbdbwbhbcbfdbsbpcxblicccwbhbcbfdb30cbdpbrbbgddbedcbbbcdcdddmwb52ibdbxbqdb26dcbcc30beib" ++
    "dbxbkbfdb31cbcpcrjbdb41cbqbfdidygfsdybjbbch58.48bcmh58cbbbfbybbbkbcjbcfbbve32b63ib36.27f115." ++
    "43ubqgeedbdchdenmbr38bbfbc43b333bechbbbec41bec33bechbbbecpb57bec67.37qq86cgd620crb26f75gihsn" ++
    "tosonbdp52.35beb67.89hfc34bbf70k31.49.30cfl44e26.54xj53.82b93.47ri54.30nck44.26.36.41dk36cjh" ++
    "43cd41ebgbcdbf192.64.278cgc38cgcibbbbbbb31c53bhbbddbhdecgenfdbh116bnbqn101bebckbbdfgbbbbbbeb" ++
    "lceffeb52c2683.229gedcm38bbfbc56hbqxjhbhbhbhbhbhbhbh80b469c42ffce86gdb90bef43b94r32.48q512.6" ++
    "592.64.22157.67.46c269dqkcu47q31c70.49jc103c64fcbbbfyqbdbebx29.52o50.62gdbbcl28kxz29h47.28bq" ++
    "fbkkfb41xdbiuxdbd50bbdccfcbbbydclhdmgcgcgjhbhb43bog115.29.11172mxe49.8452.366c106.38hmffbbkb" ++
    "nbfbbbcbcb108.33.363s64c54.40m116fb135.36.26g26l89dgcgcgcd35mb26btbcbpco34.123.389.29d49.47." ++
    "32nubig38k30c36ei48.158s36e36e40i52mlbpbhbcblbpbhbc67.311jwkiygb42bj69gcbb44bcdbcxkxj31.65tb" ++
    "ckwk26.70.56gc64bpebdb29.42.29d29.35ib28.27.54kwktns110.73.55.51n51n36.348.42gc78.29kbiw42s4" ++
    "6v27xm53.57ccbn45.32z26.36.29bcbi35dbm48oevbbb35sbz84hbbbebpbkh47.38icccwbhbcbfdbsbmf158.53s" ++
    "eud30.48ucbb184.47.41e36.48ub59.43nb71.27.37h185.44.116.64.31icbcibcbypbbb94ic39qbbb28bk40hb" ++
    "vbl46tbs73.263jb37rb49.30.112hbcb38vbzgbcb32ob327t189b79.922.230.196.2636.97p1071.4049.583.8" ++
    "633.569h31r79r30s48qe31vft688.64.128.75fb66n64cbb28.6136i1238.42j8935ebhbcb291.45drei396.230" ++
    "8.107fndjhk5990.85b71bccbcccebmbbbhb65becibhb28bebfbbdhb340czbzb31bzb31bzb31bzb31bzbi1844.31" ++
    ".481.45khqb321.30s44.1268hbebcbpb197.59.68hb1204eb27bcbbcbbkbebbbbgbebbbbbbdbcbbcbbbbbbbbbbc" ++
    "bbcebhbebebbbkbrfdbfbr4420.42720.32.4153h222c5762o7473.3103.542.1506.4939")

def isLetter (c : Char) : Bool :=
  if beyondAscii c then wideLetters.holds c.toNat else c.isAlpha

end FieldGraph.Text
