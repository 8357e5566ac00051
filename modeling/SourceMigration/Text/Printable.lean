import SourceMigration.Text.Span

/-!
# SourceMigration — printable characters

The characters that have a visible form: all but controls, format characters, unassigned and
private code points, and separators other than the plain space, by Unicode 14. The table holds
what lies beyond the first 128 code points.
-/

namespace SourceMigration.Text

/-- Code points past 127 with a visible form. -/
def printableSpans : List Span := [
  ⟨0xa1, 0xac, 1⟩, ⟨0xae, 0x377, 1⟩, ⟨0x37a, 0x37f, 1⟩, ⟨0x384, 0x38a, 1⟩, ⟨0x38c, 0x38c, 1⟩,
  ⟨0x38e, 0x3a1, 1⟩, ⟨0x3a3, 0x52f, 1⟩, ⟨0x531, 0x556, 1⟩, ⟨0x559, 0x58a, 1⟩,
  ⟨0x58d, 0x58f, 1⟩, ⟨0x591, 0x5c7, 1⟩, ⟨0x5d0, 0x5ea, 1⟩, ⟨0x5ef, 0x5f4, 1⟩,
  ⟨0x606, 0x61b, 1⟩, ⟨0x61d, 0x6dc, 1⟩, ⟨0x6de, 0x70d, 1⟩, ⟨0x710, 0x74a, 1⟩,
  ⟨0x74d, 0x7b1, 1⟩, ⟨0x7c0, 0x7fa, 1⟩, ⟨0x7fd, 0x82d, 1⟩, ⟨0x830, 0x83e, 1⟩,
  ⟨0x840, 0x85b, 1⟩, ⟨0x85e, 0x85e, 1⟩, ⟨0x860, 0x86a, 1⟩, ⟨0x870, 0x88e, 1⟩,
  ⟨0x898, 0x8e1, 1⟩, ⟨0x8e3, 0x983, 1⟩, ⟨0x985, 0x98c, 1⟩, ⟨0x98f, 0x990, 1⟩,
  ⟨0x993, 0x9a8, 1⟩, ⟨0x9aa, 0x9b0, 1⟩, ⟨0x9b2, 0x9b2, 1⟩, ⟨0x9b6, 0x9b9, 1⟩,
  ⟨0x9bc, 0x9c4, 1⟩, ⟨0x9c7, 0x9c8, 1⟩, ⟨0x9cb, 0x9ce, 1⟩, ⟨0x9d7, 0x9d7, 1⟩,
  ⟨0x9dc, 0x9dd, 1⟩, ⟨0x9df, 0x9e3, 1⟩, ⟨0x9e6, 0x9fe, 1⟩, ⟨0xa01, 0xa03, 1⟩,
  ⟨0xa05, 0xa0a, 1⟩, ⟨0xa0f, 0xa10, 1⟩, ⟨0xa13, 0xa28, 1⟩, ⟨0xa2a, 0xa30, 1⟩,
  ⟨0xa32, 0xa33, 1⟩, ⟨0xa35, 0xa36, 1⟩, ⟨0xa38, 0xa39, 1⟩, ⟨0xa3c, 0xa3c, 1⟩,
  ⟨0xa3e, 0xa42, 1⟩, ⟨0xa47, 0xa48, 1⟩, ⟨0xa4b, 0xa4d, 1⟩, ⟨0xa51, 0xa51, 1⟩,
  ⟨0xa59, 0xa5c, 1⟩, ⟨0xa5e, 0xa5e, 1⟩, ⟨0xa66, 0xa76, 1⟩, ⟨0xa81, 0xa83, 1⟩,
  ⟨0xa85, 0xa8d, 1⟩, ⟨0xa8f, 0xa91, 1⟩, ⟨0xa93, 0xaa8, 1⟩, ⟨0xaaa, 0xab0, 1⟩,
  ⟨0xab2, 0xab3, 1⟩, ⟨0xab5, 0xab9, 1⟩, ⟨0xabc, 0xac5, 1⟩, ⟨0xac7, 0xac9, 1⟩,
  ⟨0xacb, 0xacd, 1⟩, ⟨0xad0, 0xad0, 1⟩, ⟨0xae0, 0xae3, 1⟩, ⟨0xae6, 0xaf1, 1⟩,
  ⟨0xaf9, 0xaff, 1⟩, ⟨0xb01, 0xb03, 1⟩, ⟨0xb05, 0xb0c, 1⟩, ⟨0xb0f, 0xb10, 1⟩,
  ⟨0xb13, 0xb28, 1⟩, ⟨0xb2a, 0xb30, 1⟩, ⟨0xb32, 0xb33, 1⟩, ⟨0xb35, 0xb39, 1⟩,
  ⟨0xb3c, 0xb44, 1⟩, ⟨0xb47, 0xb48, 1⟩, ⟨0xb4b, 0xb4d, 1⟩, ⟨0xb55, 0xb57, 1⟩,
  ⟨0xb5c, 0xb5d, 1⟩, ⟨0xb5f, 0xb63, 1⟩, ⟨0xb66, 0xb77, 1⟩, ⟨0xb82, 0xb83, 1⟩,
  ⟨0xb85, 0xb8a, 1⟩, ⟨0xb8e, 0xb90, 1⟩, ⟨0xb92, 0xb95, 1⟩, ⟨0xb99, 0xb9a, 1⟩,
  ⟨0xb9c, 0xb9c, 1⟩, ⟨0xb9e, 0xb9f, 1⟩, ⟨0xba3, 0xba4, 1⟩, ⟨0xba8, 0xbaa, 1⟩,
  ⟨0xbae, 0xbb9, 1⟩, ⟨0xbbe, 0xbc2, 1⟩, ⟨0xbc6, 0xbc8, 1⟩, ⟨0xbca, 0xbcd, 1⟩,
  ⟨0xbd0, 0xbd0, 1⟩, ⟨0xbd7, 0xbd7, 1⟩, ⟨0xbe6, 0xbfa, 1⟩, ⟨0xc00, 0xc0c, 1⟩,
  ⟨0xc0e, 0xc10, 1⟩, ⟨0xc12, 0xc28, 1⟩, ⟨0xc2a, 0xc39, 1⟩, ⟨0xc3c, 0xc44, 1⟩,
  ⟨0xc46, 0xc48, 1⟩, ⟨0xc4a, 0xc4d, 1⟩, ⟨0xc55, 0xc56, 1⟩, ⟨0xc58, 0xc5a, 1⟩,
  ⟨0xc5d, 0xc5d, 1⟩, ⟨0xc60, 0xc63, 1⟩, ⟨0xc66, 0xc6f, 1⟩, ⟨0xc77, 0xc8c, 1⟩,
  ⟨0xc8e, 0xc90, 1⟩, ⟨0xc92, 0xca8, 1⟩, ⟨0xcaa, 0xcb3, 1⟩, ⟨0xcb5, 0xcb9, 1⟩,
  ⟨0xcbc, 0xcc4, 1⟩, ⟨0xcc6, 0xcc8, 1⟩, ⟨0xcca, 0xccd, 1⟩, ⟨0xcd5, 0xcd6, 1⟩,
  ⟨0xcdd, 0xcde, 1⟩, ⟨0xce0, 0xce3, 1⟩, ⟨0xce6, 0xcef, 1⟩, ⟨0xcf1, 0xcf2, 1⟩,
  ⟨0xd00, 0xd0c, 1⟩, ⟨0xd0e, 0xd10, 1⟩, ⟨0xd12, 0xd44, 1⟩, ⟨0xd46, 0xd48, 1⟩,
  ⟨0xd4a, 0xd4f, 1⟩, ⟨0xd54, 0xd63, 1⟩, ⟨0xd66, 0xd7f, 1⟩, ⟨0xd81, 0xd83, 1⟩,
  ⟨0xd85, 0xd96, 1⟩, ⟨0xd9a, 0xdb1, 1⟩, ⟨0xdb3, 0xdbb, 1⟩, ⟨0xdbd, 0xdbd, 1⟩,
  ⟨0xdc0, 0xdc6, 1⟩, ⟨0xdca, 0xdca, 1⟩, ⟨0xdcf, 0xdd4, 1⟩, ⟨0xdd6, 0xdd6, 1⟩,
  ⟨0xdd8, 0xddf, 1⟩, ⟨0xde6, 0xdef, 1⟩, ⟨0xdf2, 0xdf4, 1⟩, ⟨0xe01, 0xe3a, 1⟩,
  ⟨0xe3f, 0xe5b, 1⟩, ⟨0xe81, 0xe82, 1⟩, ⟨0xe84, 0xe84, 1⟩, ⟨0xe86, 0xe8a, 1⟩,
  ⟨0xe8c, 0xea3, 1⟩, ⟨0xea5, 0xea5, 1⟩, ⟨0xea7, 0xebd, 1⟩, ⟨0xec0, 0xec4, 1⟩,
  ⟨0xec6, 0xec6, 1⟩, ⟨0xec8, 0xecd, 1⟩, ⟨0xed0, 0xed9, 1⟩, ⟨0xedc, 0xedf, 1⟩,
  ⟨0xf00, 0xf47, 1⟩, ⟨0xf49, 0xf6c, 1⟩, ⟨0xf71, 0xf97, 1⟩, ⟨0xf99, 0xfbc, 1⟩,
  ⟨0xfbe, 0xfcc, 1⟩, ⟨0xfce, 0xfda, 1⟩, ⟨0x1000, 0x10c5, 1⟩, ⟨0x10c7, 0x10c7, 1⟩,
  ⟨0x10cd, 0x10cd, 1⟩, ⟨0x10d0, 0x1248, 1⟩, ⟨0x124a, 0x124d, 1⟩, ⟨0x1250, 0x1256, 1⟩,
  ⟨0x1258, 0x1258, 1⟩, ⟨0x125a, 0x125d, 1⟩, ⟨0x1260, 0x1288, 1⟩, ⟨0x128a, 0x128d, 1⟩,
  ⟨0x1290, 0x12b0, 1⟩, ⟨0x12b2, 0x12b5, 1⟩, ⟨0x12b8, 0x12be, 1⟩, ⟨0x12c0, 0x12c0, 1⟩,
  ⟨0x12c2, 0x12c5, 1⟩, ⟨0x12c8, 0x12d6, 1⟩, ⟨0x12d8, 0x1310, 1⟩, ⟨0x1312, 0x1315, 1⟩,
  ⟨0x1318, 0x135a, 1⟩, ⟨0x135d, 0x137c, 1⟩, ⟨0x1380, 0x1399, 1⟩, ⟨0x13a0, 0x13f5, 1⟩,
  ⟨0x13f8, 0x13fd, 1⟩, ⟨0x1400, 0x167f, 1⟩, ⟨0x1681, 0x169c, 1⟩, ⟨0x16a0, 0x16f8, 1⟩,
  ⟨0x1700, 0x1715, 1⟩, ⟨0x171f, 0x1736, 1⟩, ⟨0x1740, 0x1753, 1⟩, ⟨0x1760, 0x176c, 1⟩,
  ⟨0x176e, 0x1770, 1⟩, ⟨0x1772, 0x1773, 1⟩, ⟨0x1780, 0x17dd, 1⟩, ⟨0x17e0, 0x17e9, 1⟩,
  ⟨0x17f0, 0x17f9, 1⟩, ⟨0x1800, 0x180d, 1⟩, ⟨0x180f, 0x1819, 1⟩, ⟨0x1820, 0x1878, 1⟩,
  ⟨0x1880, 0x18aa, 1⟩, ⟨0x18b0, 0x18f5, 1⟩, ⟨0x1900, 0x191e, 1⟩, ⟨0x1920, 0x192b, 1⟩,
  ⟨0x1930, 0x193b, 1⟩, ⟨0x1940, 0x1940, 1⟩, ⟨0x1944, 0x196d, 1⟩, ⟨0x1970, 0x1974, 1⟩,
  ⟨0x1980, 0x19ab, 1⟩, ⟨0x19b0, 0x19c9, 1⟩, ⟨0x19d0, 0x19da, 1⟩, ⟨0x19de, 0x1a1b, 1⟩,
  ⟨0x1a1e, 0x1a5e, 1⟩, ⟨0x1a60, 0x1a7c, 1⟩, ⟨0x1a7f, 0x1a89, 1⟩, ⟨0x1a90, 0x1a99, 1⟩,
  ⟨0x1aa0, 0x1aad, 1⟩, ⟨0x1ab0, 0x1ace, 1⟩, ⟨0x1b00, 0x1b4c, 1⟩, ⟨0x1b50, 0x1b7e, 1⟩,
  ⟨0x1b80, 0x1bf3, 1⟩, ⟨0x1bfc, 0x1c37, 1⟩, ⟨0x1c3b, 0x1c49, 1⟩, ⟨0x1c4d, 0x1c88, 1⟩,
  ⟨0x1c90, 0x1cba, 1⟩, ⟨0x1cbd, 0x1cc7, 1⟩, ⟨0x1cd0, 0x1cfa, 1⟩, ⟨0x1d00, 0x1f15, 1⟩,
  ⟨0x1f18, 0x1f1d, 1⟩, ⟨0x1f20, 0x1f45, 1⟩, ⟨0x1f48, 0x1f4d, 1⟩, ⟨0x1f50, 0x1f57, 1⟩,
  ⟨0x1f59, 0x1f5d, 2⟩, ⟨0x1f5f, 0x1f7d, 1⟩, ⟨0x1f80, 0x1fb4, 1⟩, ⟨0x1fb6, 0x1fc4, 1⟩,
  ⟨0x1fc6, 0x1fd3, 1⟩, ⟨0x1fd6, 0x1fdb, 1⟩, ⟨0x1fdd, 0x1fef, 1⟩, ⟨0x1ff2, 0x1ff4, 1⟩,
  ⟨0x1ff6, 0x1ffe, 1⟩, ⟨0x2010, 0x2027, 1⟩, ⟨0x2030, 0x205e, 1⟩, ⟨0x2070, 0x2071, 1⟩,
  ⟨0x2074, 0x208e, 1⟩, ⟨0x2090, 0x209c, 1⟩, ⟨0x20a0, 0x20c0, 1⟩, ⟨0x20d0, 0x20f0, 1⟩,
  ⟨0x2100, 0x218b, 1⟩, ⟨0x2190, 0x2426, 1⟩, ⟨0x2440, 0x244a, 1⟩, ⟨0x2460, 0x2b73, 1⟩,
  ⟨0x2b76, 0x2b95, 1⟩, ⟨0x2b97, 0x2cf3, 1⟩, ⟨0x2cf9, 0x2d25, 1⟩, ⟨0x2d27, 0x2d27, 1⟩,
  ⟨0x2d2d, 0x2d2d, 1⟩, ⟨0x2d30, 0x2d67, 1⟩, ⟨0x2d6f, 0x2d70, 1⟩, ⟨0x2d7f, 0x2d96, 1⟩,
  ⟨0x2da0, 0x2da6, 1⟩, ⟨0x2da8, 0x2dae, 1⟩, ⟨0x2db0, 0x2db6, 1⟩, ⟨0x2db8, 0x2dbe, 1⟩,
  ⟨0x2dc0, 0x2dc6, 1⟩, ⟨0x2dc8, 0x2dce, 1⟩, ⟨0x2dd0, 0x2dd6, 1⟩, ⟨0x2dd8, 0x2dde, 1⟩,
  ⟨0x2de0, 0x2e5d, 1⟩, ⟨0x2e80, 0x2e99, 1⟩, ⟨0x2e9b, 0x2ef3, 1⟩, ⟨0x2f00, 0x2fd5, 1⟩,
  ⟨0x2ff0, 0x2ffb, 1⟩, ⟨0x3001, 0x303f, 1⟩, ⟨0x3041, 0x3096, 1⟩, ⟨0x3099, 0x30ff, 1⟩,
  ⟨0x3105, 0x312f, 1⟩, ⟨0x3131, 0x318e, 1⟩, ⟨0x3190, 0x31e3, 1⟩, ⟨0x31f0, 0x321e, 1⟩,
  ⟨0x3220, 0xa48c, 1⟩, ⟨0xa490, 0xa4c6, 1⟩, ⟨0xa4d0, 0xa62b, 1⟩, ⟨0xa640, 0xa6f7, 1⟩,
  ⟨0xa700, 0xa7ca, 1⟩, ⟨0xa7d0, 0xa7d1, 1⟩, ⟨0xa7d3, 0xa7d3, 1⟩, ⟨0xa7d5, 0xa7d9, 1⟩,
  ⟨0xa7f2, 0xa82c, 1⟩, ⟨0xa830, 0xa839, 1⟩, ⟨0xa840, 0xa877, 1⟩, ⟨0xa880, 0xa8c5, 1⟩,
  ⟨0xa8ce, 0xa8d9, 1⟩, ⟨0xa8e0, 0xa953, 1⟩, ⟨0xa95f, 0xa97c, 1⟩, ⟨0xa980, 0xa9cd, 1⟩,
  ⟨0xa9cf, 0xa9d9, 1⟩, ⟨0xa9de, 0xa9fe, 1⟩, ⟨0xaa00, 0xaa36, 1⟩, ⟨0xaa40, 0xaa4d, 1⟩,
  ⟨0xaa50, 0xaa59, 1⟩, ⟨0xaa5c, 0xaac2, 1⟩, ⟨0xaadb, 0xaaf6, 1⟩, ⟨0xab01, 0xab06, 1⟩,
  ⟨0xab09, 0xab0e, 1⟩, ⟨0xab11, 0xab16, 1⟩, ⟨0xab20, 0xab26, 1⟩, ⟨0xab28, 0xab2e, 1⟩,
  ⟨0xab30, 0xab6b, 1⟩, ⟨0xab70, 0xabed, 1⟩, ⟨0xabf0, 0xabf9, 1⟩, ⟨0xac00, 0xd7a3, 1⟩,
  ⟨0xd7b0, 0xd7c6, 1⟩, ⟨0xd7cb, 0xd7fb, 1⟩, ⟨0xf900, 0xfa6d, 1⟩, ⟨0xfa70, 0xfad9, 1⟩,
  ⟨0xfb00, 0xfb06, 1⟩, ⟨0xfb13, 0xfb17, 1⟩, ⟨0xfb1d, 0xfb36, 1⟩, ⟨0xfb38, 0xfb3c, 1⟩,
  ⟨0xfb3e, 0xfb3e, 1⟩, ⟨0xfb40, 0xfb41, 1⟩, ⟨0xfb43, 0xfb44, 1⟩, ⟨0xfb46, 0xfbc2, 1⟩,
  ⟨0xfbd3, 0xfd8f, 1⟩, ⟨0xfd92, 0xfdc7, 1⟩, ⟨0xfdcf, 0xfdcf, 1⟩, ⟨0xfdf0, 0xfe19, 1⟩,
  ⟨0xfe20, 0xfe52, 1⟩, ⟨0xfe54, 0xfe66, 1⟩, ⟨0xfe68, 0xfe6b, 1⟩, ⟨0xfe70, 0xfe74, 1⟩,
  ⟨0xfe76, 0xfefc, 1⟩, ⟨0xff01, 0xffbe, 1⟩, ⟨0xffc2, 0xffc7, 1⟩, ⟨0xffca, 0xffcf, 1⟩,
  ⟨0xffd2, 0xffd7, 1⟩, ⟨0xffda, 0xffdc, 1⟩, ⟨0xffe0, 0xffe6, 1⟩, ⟨0xffe8, 0xffee, 1⟩,
  ⟨0xfffc, 0xfffd, 1⟩, ⟨0x10000, 0x1000b, 1⟩, ⟨0x1000d, 0x10026, 1⟩, ⟨0x10028, 0x1003a, 1⟩,
  ⟨0x1003c, 0x1003d, 1⟩, ⟨0x1003f, 0x1004d, 1⟩, ⟨0x10050, 0x1005d, 1⟩, ⟨0x10080, 0x100fa, 1⟩,
  ⟨0x10100, 0x10102, 1⟩, ⟨0x10107, 0x10133, 1⟩, ⟨0x10137, 0x1018e, 1⟩, ⟨0x10190, 0x1019c, 1⟩,
  ⟨0x101a0, 0x101a0, 1⟩, ⟨0x101d0, 0x101fd, 1⟩, ⟨0x10280, 0x1029c, 1⟩, ⟨0x102a0, 0x102d0, 1⟩,
  ⟨0x102e0, 0x102fb, 1⟩, ⟨0x10300, 0x10323, 1⟩, ⟨0x1032d, 0x1034a, 1⟩, ⟨0x10350, 0x1037a, 1⟩,
  ⟨0x10380, 0x1039d, 1⟩, ⟨0x1039f, 0x103c3, 1⟩, ⟨0x103c8, 0x103d5, 1⟩, ⟨0x10400, 0x1049d, 1⟩,
  ⟨0x104a0, 0x104a9, 1⟩, ⟨0x104b0, 0x104d3, 1⟩, ⟨0x104d8, 0x104fb, 1⟩, ⟨0x10500, 0x10527, 1⟩,
  ⟨0x10530, 0x10563, 1⟩, ⟨0x1056f, 0x1057a, 1⟩, ⟨0x1057c, 0x1058a, 1⟩, ⟨0x1058c, 0x10592, 1⟩,
  ⟨0x10594, 0x10595, 1⟩, ⟨0x10597, 0x105a1, 1⟩, ⟨0x105a3, 0x105b1, 1⟩, ⟨0x105b3, 0x105b9, 1⟩,
  ⟨0x105bb, 0x105bc, 1⟩, ⟨0x10600, 0x10736, 1⟩, ⟨0x10740, 0x10755, 1⟩, ⟨0x10760, 0x10767, 1⟩,
  ⟨0x10780, 0x10785, 1⟩, ⟨0x10787, 0x107b0, 1⟩, ⟨0x107b2, 0x107ba, 1⟩, ⟨0x10800, 0x10805, 1⟩,
  ⟨0x10808, 0x10808, 1⟩, ⟨0x1080a, 0x10835, 1⟩, ⟨0x10837, 0x10838, 1⟩, ⟨0x1083c, 0x1083c, 1⟩,
  ⟨0x1083f, 0x10855, 1⟩, ⟨0x10857, 0x1089e, 1⟩, ⟨0x108a7, 0x108af, 1⟩, ⟨0x108e0, 0x108f2, 1⟩,
  ⟨0x108f4, 0x108f5, 1⟩, ⟨0x108fb, 0x1091b, 1⟩, ⟨0x1091f, 0x10939, 1⟩, ⟨0x1093f, 0x1093f, 1⟩,
  ⟨0x10980, 0x109b7, 1⟩, ⟨0x109bc, 0x109cf, 1⟩, ⟨0x109d2, 0x10a03, 1⟩, ⟨0x10a05, 0x10a06, 1⟩,
  ⟨0x10a0c, 0x10a13, 1⟩, ⟨0x10a15, 0x10a17, 1⟩, ⟨0x10a19, 0x10a35, 1⟩, ⟨0x10a38, 0x10a3a, 1⟩,
  ⟨0x10a3f, 0x10a48, 1⟩, ⟨0x10a50, 0x10a58, 1⟩, ⟨0x10a60, 0x10a9f, 1⟩, ⟨0x10ac0, 0x10ae6, 1⟩,
  ⟨0x10aeb, 0x10af6, 1⟩, ⟨0x10b00, 0x10b35, 1⟩, ⟨0x10b39, 0x10b55, 1⟩, ⟨0x10b58, 0x10b72, 1⟩,
  ⟨0x10b78, 0x10b91, 1⟩, ⟨0x10b99, 0x10b9c, 1⟩, ⟨0x10ba9, 0x10baf, 1⟩, ⟨0x10c00, 0x10c48, 1⟩,
  ⟨0x10c80, 0x10cb2, 1⟩, ⟨0x10cc0, 0x10cf2, 1⟩, ⟨0x10cfa, 0x10d27, 1⟩, ⟨0x10d30, 0x10d39, 1⟩,
  ⟨0x10e60, 0x10e7e, 1⟩, ⟨0x10e80, 0x10ea9, 1⟩, ⟨0x10eab, 0x10ead, 1⟩, ⟨0x10eb0, 0x10eb1, 1⟩,
  ⟨0x10f00, 0x10f27, 1⟩, ⟨0x10f30, 0x10f59, 1⟩, ⟨0x10f70, 0x10f89, 1⟩, ⟨0x10fb0, 0x10fcb, 1⟩,
  ⟨0x10fe0, 0x10ff6, 1⟩, ⟨0x11000, 0x1104d, 1⟩, ⟨0x11052, 0x11075, 1⟩, ⟨0x1107f, 0x110bc, 1⟩,
  ⟨0x110be, 0x110c2, 1⟩, ⟨0x110d0, 0x110e8, 1⟩, ⟨0x110f0, 0x110f9, 1⟩, ⟨0x11100, 0x11134, 1⟩,
  ⟨0x11136, 0x11147, 1⟩, ⟨0x11150, 0x11176, 1⟩, ⟨0x11180, 0x111df, 1⟩, ⟨0x111e1, 0x111f4, 1⟩,
  ⟨0x11200, 0x11211, 1⟩, ⟨0x11213, 0x1123e, 1⟩, ⟨0x11280, 0x11286, 1⟩, ⟨0x11288, 0x11288, 1⟩,
  ⟨0x1128a, 0x1128d, 1⟩, ⟨0x1128f, 0x1129d, 1⟩, ⟨0x1129f, 0x112a9, 1⟩, ⟨0x112b0, 0x112ea, 1⟩,
  ⟨0x112f0, 0x112f9, 1⟩, ⟨0x11300, 0x11303, 1⟩, ⟨0x11305, 0x1130c, 1⟩, ⟨0x1130f, 0x11310, 1⟩,
  ⟨0x11313, 0x11328, 1⟩, ⟨0x1132a, 0x11330, 1⟩, ⟨0x11332, 0x11333, 1⟩, ⟨0x11335, 0x11339, 1⟩,
  ⟨0x1133b, 0x11344, 1⟩, ⟨0x11347, 0x11348, 1⟩, ⟨0x1134b, 0x1134d, 1⟩, ⟨0x11350, 0x11350, 1⟩,
  ⟨0x11357, 0x11357, 1⟩, ⟨0x1135d, 0x11363, 1⟩, ⟨0x11366, 0x1136c, 1⟩, ⟨0x11370, 0x11374, 1⟩,
  ⟨0x11400, 0x1145b, 1⟩, ⟨0x1145d, 0x11461, 1⟩, ⟨0x11480, 0x114c7, 1⟩, ⟨0x114d0, 0x114d9, 1⟩,
  ⟨0x11580, 0x115b5, 1⟩, ⟨0x115b8, 0x115dd, 1⟩, ⟨0x11600, 0x11644, 1⟩, ⟨0x11650, 0x11659, 1⟩,
  ⟨0x11660, 0x1166c, 1⟩, ⟨0x11680, 0x116b9, 1⟩, ⟨0x116c0, 0x116c9, 1⟩, ⟨0x11700, 0x1171a, 1⟩,
  ⟨0x1171d, 0x1172b, 1⟩, ⟨0x11730, 0x11746, 1⟩, ⟨0x11800, 0x1183b, 1⟩, ⟨0x118a0, 0x118f2, 1⟩,
  ⟨0x118ff, 0x11906, 1⟩, ⟨0x11909, 0x11909, 1⟩, ⟨0x1190c, 0x11913, 1⟩, ⟨0x11915, 0x11916, 1⟩,
  ⟨0x11918, 0x11935, 1⟩, ⟨0x11937, 0x11938, 1⟩, ⟨0x1193b, 0x11946, 1⟩, ⟨0x11950, 0x11959, 1⟩,
  ⟨0x119a0, 0x119a7, 1⟩, ⟨0x119aa, 0x119d7, 1⟩, ⟨0x119da, 0x119e4, 1⟩, ⟨0x11a00, 0x11a47, 1⟩,
  ⟨0x11a50, 0x11aa2, 1⟩, ⟨0x11ab0, 0x11af8, 1⟩, ⟨0x11c00, 0x11c08, 1⟩, ⟨0x11c0a, 0x11c36, 1⟩,
  ⟨0x11c38, 0x11c45, 1⟩, ⟨0x11c50, 0x11c6c, 1⟩, ⟨0x11c70, 0x11c8f, 1⟩, ⟨0x11c92, 0x11ca7, 1⟩,
  ⟨0x11ca9, 0x11cb6, 1⟩, ⟨0x11d00, 0x11d06, 1⟩, ⟨0x11d08, 0x11d09, 1⟩, ⟨0x11d0b, 0x11d36, 1⟩,
  ⟨0x11d3a, 0x11d3a, 1⟩, ⟨0x11d3c, 0x11d3d, 1⟩, ⟨0x11d3f, 0x11d47, 1⟩, ⟨0x11d50, 0x11d59, 1⟩,
  ⟨0x11d60, 0x11d65, 1⟩, ⟨0x11d67, 0x11d68, 1⟩, ⟨0x11d6a, 0x11d8e, 1⟩, ⟨0x11d90, 0x11d91, 1⟩,
  ⟨0x11d93, 0x11d98, 1⟩, ⟨0x11da0, 0x11da9, 1⟩, ⟨0x11ee0, 0x11ef8, 1⟩, ⟨0x11fb0, 0x11fb0, 1⟩,
  ⟨0x11fc0, 0x11ff1, 1⟩, ⟨0x11fff, 0x12399, 1⟩, ⟨0x12400, 0x1246e, 1⟩, ⟨0x12470, 0x12474, 1⟩,
  ⟨0x12480, 0x12543, 1⟩, ⟨0x12f90, 0x12ff2, 1⟩, ⟨0x13000, 0x1342e, 1⟩, ⟨0x14400, 0x14646, 1⟩,
  ⟨0x16800, 0x16a38, 1⟩, ⟨0x16a40, 0x16a5e, 1⟩, ⟨0x16a60, 0x16a69, 1⟩, ⟨0x16a6e, 0x16abe, 1⟩,
  ⟨0x16ac0, 0x16ac9, 1⟩, ⟨0x16ad0, 0x16aed, 1⟩, ⟨0x16af0, 0x16af5, 1⟩, ⟨0x16b00, 0x16b45, 1⟩,
  ⟨0x16b50, 0x16b59, 1⟩, ⟨0x16b5b, 0x16b61, 1⟩, ⟨0x16b63, 0x16b77, 1⟩, ⟨0x16b7d, 0x16b8f, 1⟩,
  ⟨0x16e40, 0x16e9a, 1⟩, ⟨0x16f00, 0x16f4a, 1⟩, ⟨0x16f4f, 0x16f87, 1⟩, ⟨0x16f8f, 0x16f9f, 1⟩,
  ⟨0x16fe0, 0x16fe4, 1⟩, ⟨0x16ff0, 0x16ff1, 1⟩, ⟨0x17000, 0x187f7, 1⟩, ⟨0x18800, 0x18cd5, 1⟩,
  ⟨0x18d00, 0x18d08, 1⟩, ⟨0x1aff0, 0x1aff3, 1⟩, ⟨0x1aff5, 0x1affb, 1⟩, ⟨0x1affd, 0x1affe, 1⟩,
  ⟨0x1b000, 0x1b122, 1⟩, ⟨0x1b150, 0x1b152, 1⟩, ⟨0x1b164, 0x1b167, 1⟩, ⟨0x1b170, 0x1b2fb, 1⟩,
  ⟨0x1bc00, 0x1bc6a, 1⟩, ⟨0x1bc70, 0x1bc7c, 1⟩, ⟨0x1bc80, 0x1bc88, 1⟩, ⟨0x1bc90, 0x1bc99, 1⟩,
  ⟨0x1bc9c, 0x1bc9f, 1⟩, ⟨0x1cf00, 0x1cf2d, 1⟩, ⟨0x1cf30, 0x1cf46, 1⟩, ⟨0x1cf50, 0x1cfc3, 1⟩,
  ⟨0x1d000, 0x1d0f5, 1⟩, ⟨0x1d100, 0x1d126, 1⟩, ⟨0x1d129, 0x1d172, 1⟩, ⟨0x1d17b, 0x1d1ea, 1⟩,
  ⟨0x1d200, 0x1d245, 1⟩, ⟨0x1d2e0, 0x1d2f3, 1⟩, ⟨0x1d300, 0x1d356, 1⟩, ⟨0x1d360, 0x1d378, 1⟩,
  ⟨0x1d400, 0x1d454, 1⟩, ⟨0x1d456, 0x1d49c, 1⟩, ⟨0x1d49e, 0x1d49f, 1⟩, ⟨0x1d4a2, 0x1d4a2, 1⟩,
  ⟨0x1d4a5, 0x1d4a6, 1⟩, ⟨0x1d4a9, 0x1d4ac, 1⟩, ⟨0x1d4ae, 0x1d4b9, 1⟩, ⟨0x1d4bb, 0x1d4bb, 1⟩,
  ⟨0x1d4bd, 0x1d4c3, 1⟩, ⟨0x1d4c5, 0x1d505, 1⟩, ⟨0x1d507, 0x1d50a, 1⟩, ⟨0x1d50d, 0x1d514, 1⟩,
  ⟨0x1d516, 0x1d51c, 1⟩, ⟨0x1d51e, 0x1d539, 1⟩, ⟨0x1d53b, 0x1d53e, 1⟩, ⟨0x1d540, 0x1d544, 1⟩,
  ⟨0x1d546, 0x1d546, 1⟩, ⟨0x1d54a, 0x1d550, 1⟩, ⟨0x1d552, 0x1d6a5, 1⟩, ⟨0x1d6a8, 0x1d7cb, 1⟩,
  ⟨0x1d7ce, 0x1da8b, 1⟩, ⟨0x1da9b, 0x1da9f, 1⟩, ⟨0x1daa1, 0x1daaf, 1⟩, ⟨0x1df00, 0x1df1e, 1⟩,
  ⟨0x1e000, 0x1e006, 1⟩, ⟨0x1e008, 0x1e018, 1⟩, ⟨0x1e01b, 0x1e021, 1⟩, ⟨0x1e023, 0x1e024, 1⟩,
  ⟨0x1e026, 0x1e02a, 1⟩, ⟨0x1e100, 0x1e12c, 1⟩, ⟨0x1e130, 0x1e13d, 1⟩, ⟨0x1e140, 0x1e149, 1⟩,
  ⟨0x1e14e, 0x1e14f, 1⟩, ⟨0x1e290, 0x1e2ae, 1⟩, ⟨0x1e2c0, 0x1e2f9, 1⟩, ⟨0x1e2ff, 0x1e2ff, 1⟩,
  ⟨0x1e7e0, 0x1e7e6, 1⟩, ⟨0x1e7e8, 0x1e7eb, 1⟩, ⟨0x1e7ed, 0x1e7ee, 1⟩, ⟨0x1e7f0, 0x1e7fe, 1⟩,
  ⟨0x1e800, 0x1e8c4, 1⟩, ⟨0x1e8c7, 0x1e8d6, 1⟩, ⟨0x1e900, 0x1e94b, 1⟩, ⟨0x1e950, 0x1e959, 1⟩,
  ⟨0x1e95e, 0x1e95f, 1⟩, ⟨0x1ec71, 0x1ecb4, 1⟩, ⟨0x1ed01, 0x1ed3d, 1⟩, ⟨0x1ee00, 0x1ee03, 1⟩,
  ⟨0x1ee05, 0x1ee1f, 1⟩, ⟨0x1ee21, 0x1ee22, 1⟩, ⟨0x1ee24, 0x1ee24, 1⟩, ⟨0x1ee27, 0x1ee27, 1⟩,
  ⟨0x1ee29, 0x1ee32, 1⟩, ⟨0x1ee34, 0x1ee37, 1⟩, ⟨0x1ee39, 0x1ee39, 1⟩, ⟨0x1ee3b, 0x1ee3b, 1⟩,
  ⟨0x1ee42, 0x1ee42, 1⟩, ⟨0x1ee47, 0x1ee4b, 2⟩, ⟨0x1ee4d, 0x1ee4f, 1⟩, ⟨0x1ee51, 0x1ee52, 1⟩,
  ⟨0x1ee54, 0x1ee54, 1⟩, ⟨0x1ee57, 0x1ee5f, 2⟩, ⟨0x1ee61, 0x1ee62, 1⟩, ⟨0x1ee64, 0x1ee64, 1⟩,
  ⟨0x1ee67, 0x1ee6a, 1⟩, ⟨0x1ee6c, 0x1ee72, 1⟩, ⟨0x1ee74, 0x1ee77, 1⟩, ⟨0x1ee79, 0x1ee7c, 1⟩,
  ⟨0x1ee7e, 0x1ee7e, 1⟩, ⟨0x1ee80, 0x1ee89, 1⟩, ⟨0x1ee8b, 0x1ee9b, 1⟩, ⟨0x1eea1, 0x1eea3, 1⟩,
  ⟨0x1eea5, 0x1eea9, 1⟩, ⟨0x1eeab, 0x1eebb, 1⟩, ⟨0x1eef0, 0x1eef1, 1⟩, ⟨0x1f000, 0x1f02b, 1⟩,
  ⟨0x1f030, 0x1f093, 1⟩, ⟨0x1f0a0, 0x1f0ae, 1⟩, ⟨0x1f0b1, 0x1f0bf, 1⟩, ⟨0x1f0c1, 0x1f0cf, 1⟩,
  ⟨0x1f0d1, 0x1f0f5, 1⟩, ⟨0x1f100, 0x1f1ad, 1⟩, ⟨0x1f1e6, 0x1f202, 1⟩, ⟨0x1f210, 0x1f23b, 1⟩,
  ⟨0x1f240, 0x1f248, 1⟩, ⟨0x1f250, 0x1f251, 1⟩, ⟨0x1f260, 0x1f265, 1⟩, ⟨0x1f300, 0x1f6d7, 1⟩,
  ⟨0x1f6dd, 0x1f6ec, 1⟩, ⟨0x1f6f0, 0x1f6fc, 1⟩, ⟨0x1f700, 0x1f773, 1⟩, ⟨0x1f780, 0x1f7d8, 1⟩,
  ⟨0x1f7e0, 0x1f7eb, 1⟩, ⟨0x1f7f0, 0x1f7f0, 1⟩, ⟨0x1f800, 0x1f80b, 1⟩, ⟨0x1f810, 0x1f847, 1⟩,
  ⟨0x1f850, 0x1f859, 1⟩, ⟨0x1f860, 0x1f887, 1⟩, ⟨0x1f890, 0x1f8ad, 1⟩, ⟨0x1f8b0, 0x1f8b1, 1⟩,
  ⟨0x1f900, 0x1fa53, 1⟩, ⟨0x1fa60, 0x1fa6d, 1⟩, ⟨0x1fa70, 0x1fa74, 1⟩, ⟨0x1fa78, 0x1fa7c, 1⟩,
  ⟨0x1fa80, 0x1fa86, 1⟩, ⟨0x1fa90, 0x1faac, 1⟩, ⟨0x1fab0, 0x1faba, 1⟩, ⟨0x1fac0, 0x1fac5, 1⟩,
  ⟨0x1fad0, 0x1fad9, 1⟩, ⟨0x1fae0, 0x1fae7, 1⟩, ⟨0x1faf0, 0x1faf6, 1⟩, ⟨0x1fb00, 0x1fb92, 1⟩,
  ⟨0x1fb94, 0x1fbca, 1⟩, ⟨0x1fbf0, 0x1fbf9, 1⟩, ⟨0x20000, 0x2a6df, 1⟩, ⟨0x2a700, 0x2b738, 1⟩,
  ⟨0x2b740, 0x2b81d, 1⟩, ⟨0x2b820, 0x2cea1, 1⟩, ⟨0x2ceb0, 0x2ebe0, 1⟩, ⟨0x2f800, 0x2fa1d, 1⟩,
  ⟨0x30000, 0x3134a, 1⟩, ⟨0xe0100, 0xe01ef, 1⟩]

/-- Whether the character has a visible form. -/
def isPrintable (c : Char) : Bool :=
  if c.toNat < 128 then 32 ≤ c.toNat && c.toNat < 127 else inSpans printableSpans c.toNat

end SourceMigration.Text
