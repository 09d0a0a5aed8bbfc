import Pkgly.Authentication.Equiv.Credentials
import Pkgly.Authentication.Equiv.OAuthStates
import Pkgly.Authentication.Equiv.Redirect
import Pkgly.Cargo.Equiv.Dependencies
import Pkgly.Cargo.Equiv.Hosted
import Pkgly.Deb.Equiv.Hosted
import Pkgly.Deb.Equiv.Packages
import Pkgly.Deb.Equiv.Proxy
import Pkgly.Docker.Equiv.Auth
import Pkgly.Docker.Equiv.Challenge
import Pkgly.Docker.Equiv.LocalStream
import Pkgly.Docker.Equiv.ManifestGraph
import Pkgly.Docker.Equiv.ManifestPaths
import Pkgly.Docker.Equiv.ObjectAccounting
import Pkgly.Docker.Equiv.PackageDeletion
import Pkgly.Docker.Equiv.Pagination
import Pkgly.Docker.Equiv.Proxy
import Pkgly.Docker.Equiv.Scopes
import Pkgly.Docker.Equiv.UploadSystem
import Pkgly.Egress.Equiv.Upstream
import Pkgly.Go.Equiv.Athens
import Pkgly.Go.Equiv.Latest
import Pkgly.Go.Equiv.Requests
import Pkgly.Helm.Equiv.Archive
import Pkgly.Helm.Equiv.Artifacts
import Pkgly.Helm.Equiv.Index
import Pkgly.Helm.Equiv.IndexOrder
import Pkgly.Maintenance.Equiv.AdvisoryLock
import Pkgly.Maven.Equiv.PomScope
import Pkgly.Maven.Equiv.ProxyRoutes
import Pkgly.Npm.Equiv.DistTags
import Pkgly.Npm.Equiv.Handlers
import Pkgly.Npm.Equiv.Hosted
import Pkgly.Nuget.Equiv.Hosted
import Pkgly.Nuget.Equiv.Links
import Pkgly.Nuget.Equiv.Virtual
import Pkgly.Php.Equiv.Hosted
import Pkgly.Python.Equiv.Hosted
import Pkgly.Repository.Equiv.BrowseWs
import Pkgly.Repository.Equiv.Packages
import Pkgly.Repository.Equiv.ProxyIndexing
import Pkgly.Repository.Equiv.RepoHttp
import Pkgly.Ruby.Equiv.CompactIndex
import Pkgly.Ruby.Equiv.FullIndex
import Pkgly.Ruby.Equiv.Hosted
import Pkgly.Ruby.Equiv.Utils
import Pkgly.Search.Equiv.Database
import Pkgly.Search.Equiv.QueryParser
import Pkgly.Storage.Equiv.Management
import Pkgly.Storage.Local.Equiv.Isolation
import Pkgly.Storage.S3.Equiv.AppendStaging
import Pkgly.Storage.S3.Equiv.CreationProbes
import Pkgly.Storage.S3.Equiv.Generations
import Pkgly.Storage.S3.Equiv.MultipartCopy
import Pkgly.Storage.S3.Equiv.PathTree
import Pkgly.User.Equiv.Administrators
import Pkgly.User.Equiv.ExternalLogins
import Pkgly.User.Equiv.PasswordReset
import Pkgly.Virtual.Equiv.Resolver
import Pkgly.Virtual.Equiv.Updates
import Pkgly.Webhooks.Equiv.Deliveries
